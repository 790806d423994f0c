import VectorizedSort.Pattern.Shape

/-! # Shapes piece by piece

A shape sorts pieces of a list and moves nothing from one piece to another. Cut into pieces of the
length of a tooth, a saw has the same elements in each piece as the list it was made from, in the
direction of that tooth. The saw is also written with every division and every look-up refusing what
is out of range, and it goes through whenever every tooth has a direction. -/

namespace VectorizedSort.Shape

/-! ### Sorted parts -/

/-- `ys` has the elements of `xs` in ascending order, or in descending order. -/
structure SortedInto (goesDown : Prop) (xs ys : List Int32) : Prop where
  perm : ys.Perm xs
  up : ¬ goesDown → ys.Pairwise (· ≤ ·)
  down : goesDown → ys.Pairwise (· ≥ ·)

variable {goesDown : Prop} {xs ys : List Int32}

theorem pairwise_ascending (xs : List Int32) : (ascending xs).Pairwise (· ≤ ·) := by
  have hsorted : (ascending xs).Pairwise fun a b => decide (a.toInt ≤ b.toInt) = true := by
    apply List.pairwise_mergeSort
    · simp only [decide_eq_true_eq]
      exact fun a b c => Int.le_trans
    · simp only [Bool.or_eq_true, decide_eq_true_eq]
      exact fun a b => Int.le_total a.toInt b.toInt
  exact hsorted.imp fun h => Int32.le_iff_toInt_le.mpr (of_decide_eq_true h)

theorem pairwise_descending (xs : List Int32) : (descending xs).Pairwise (· ≥ ·) := by
  have hsorted : (descending xs).Pairwise fun a b => decide (b.toInt ≤ a.toInt) = true := by
    apply List.pairwise_mergeSort
    · simp only [decide_eq_true_eq]
      exact fun a b c hab hbc => Int.le_trans hbc hab
    · simp only [Bool.or_eq_true, decide_eq_true_eq]
      exact fun a b => Int.le_total b.toInt a.toInt
  exact hsorted.imp fun h => Int32.le_iff_toInt_le.mpr (of_decide_eq_true h)

theorem sortedInto_ascending (h : ¬ goesDown) (xs : List Int32) :
    SortedInto goesDown xs (ascending xs) where
  perm := List.mergeSort_perm xs _
  up _ := pairwise_ascending xs
  down hdown := absurd hdown h

theorem sortedInto_descending (h : goesDown) (xs : List Int32) :
    SortedInto goesDown xs (descending xs) where
  perm := List.mergeSort_perm xs _
  up hup := absurd h hup
  down _ := pairwise_descending xs

/-! ### Two parts -/

section Parts

variable {count : Nat}

theorem length_ascending_take (h : count ≤ xs.length) :
    (ascending (xs.take count)).length = count :=
  (List.length_mergeSort _).trans (List.length_take_of_le h)

/-- A sorted start is sorted up to the count and the same from there on. -/
theorem sortedStart_parts (h : count ≤ xs.length) :
    SortedInto False (xs.take count) ((sortedStart count xs).take count) ∧
      (sortedStart count xs).drop count = xs.drop count := by
  have hlength := length_ascending_take h
  rw [sortedStart, List.take_left' hlength, List.drop_left' hlength]
  exact ⟨sortedInto_ascending not_false _, rfl⟩

/-- The pipes of an organ go up in the first half and down in the other one. -/
theorem pipeOrgan_parts (xs : List Int32) :
    SortedInto False (xs.take (xs.length / 2)) ((pipeOrgan xs).take (xs.length / 2)) ∧
      SortedInto True (xs.drop (xs.length / 2)) ((pipeOrgan xs).drop (xs.length / 2)) := by
  have hlength := length_ascending_take (Nat.div_le_self xs.length 2)
  rw [pipeOrgan, List.take_left' hlength, List.drop_left' hlength]
  exact ⟨sortedInto_ascending not_false _, sortedInto_descending trivial _⟩

end Parts

/-! ### Pieces -/

/-- The piece with a number, if a list is cut into pieces of a size. The last piece may be shorter,
and the pieces behind it are empty. -/
def piece (size number : Nat) (xs : List Int32) : List Int32 := (xs.drop (number * size)).take size

/-- `ys` has the elements of `xs` piece by piece, sorted in the direction of the piece. -/
structure SortedByPieces (size : Nat) (goesDown : Nat → Prop) (xs ys : List Int32) : Prop where
  length_eq : ys.length = xs.length
  pieces : ∀ number, SortedInto (goesDown number) (piece size number xs) (piece size number ys)

section Pieces

variable {size : Nat} {first rest : List Int32}

@[simp] theorem piece_nil (size number : Nat) : piece size number [] = [] := by
  rw [piece, List.drop_nil, List.take_nil]

/-- The first list is the first piece, if it is as long as a piece or shorter and all there is. -/
theorem piece_zero_append (hfirst : first.length ≤ size) (hrest : first.length = size ∨ rest = []) :
    piece size 0 (first ++ rest) = first := by
  rw [piece, Nat.zero_mul, List.drop_zero]
  obtain hfull | rfl := hrest
  · exact List.take_left' hfull
  · rw [List.append_nil, List.take_of_length_le hfirst]

/-- The pieces behind it are those of the other list. -/
theorem piece_succ_append (hfirst : first.length ≤ size) (hrest : first.length = size ∨ rest = [])
    (number : Nat) : piece size (number + 1) (first ++ rest) = piece size number rest := by
  obtain hfull | rfl := hrest
  · rw [piece, Nat.succ_mul, Nat.add_comm, ← List.drop_drop, List.drop_left' hfull, piece]
  · rw [piece_nil, piece, Nat.succ_mul, List.append_nil,
      List.drop_eq_nil_of_le (Nat.le_trans hfirst (Nat.le_add_left size _)), List.take_nil]

/-- Lists are sorted by pieces if their first pieces are sorted and the rests are sorted by the
pieces behind. -/
theorem SortedByPieces.append {goesDown : Nat → Prop} {first' rest' : List Int32}
    (hfirst : first.length ≤ size) (hrest : first.length = size ∨ rest = [])
    (hsorted : SortedInto (goesDown 0) first first')
    (hbehind : SortedByPieces size (fun number => goesDown (number + 1)) rest rest') :
    SortedByPieces size goesDown (first ++ rest) (first' ++ rest') := by
  have hlength := hsorted.perm.length_eq
  have hfirst' : first'.length ≤ size := hlength ▸ hfirst
  have hrest' : first'.length = size ∨ rest' = [] := by
    refine hrest.imp (fun hfull => hlength.trans hfull) fun hnil => ?_
    rw [← List.length_eq_zero_iff, hbehind.length_eq, hnil, List.length_nil]
  refine ⟨?_, fun number => ?_⟩
  · rw [List.length_append, List.length_append, hlength, hbehind.length_eq]
  · cases number with
    | zero =>
      rw [piece_zero_append hfirst hrest, piece_zero_append hfirst' hrest']
      exact hsorted
    | succ number =>
      rw [piece_succ_append hfirst hrest, piece_succ_append hfirst' hrest']
      exact hbehind.pieces number

end Pieces

/-! ### Saws -/

section Saws

variable {size : Nat} (hsize : 0 < size) (goesDown : Nat → Bool)

/-- The teeth are the pieces, sorted in their directions. -/
theorem sortedByPieces_teeth (number : Nat) (xs : List Int32) :
    SortedByPieces size (fun i => goesDown (number + i)) xs
      (teeth size hsize goesDown number xs) := by
  fun_induction teeth size hsize goesDown number xs with
  | case1 number =>
    refine ⟨rfl, fun i => ?_⟩
    rw [piece_nil]
    exact ⟨List.Perm.refl _, fun _ => .nil, fun _ => .nil⟩
  | case2 number x xs tooth ih =>
    have hfirst : tooth.length ≤ size := List.length_take_le size _
    have hrest : tooth.length = size ∨ (x :: xs).drop size = [] := by
      rw [List.length_take, List.drop_eq_nil_iff]
      omega
    have hsorted : SortedInto (goesDown (number + 0)) tooth
        (if goesDown number then descending tooth else ascending tooth) := by
      split
      · rename_i hdown
        exact sortedInto_descending hdown tooth
      · rename_i hup
        exact sortedInto_ascending hup tooth
    have hbehind : SortedByPieces size (fun i => goesDown (number + (i + 1)))
        ((x :: xs).drop size) (teeth size hsize goesDown (number + 1) ((x :: xs).drop size)) := by
      simpa only [Nat.add_assoc, Nat.add_comm 1] using ih
    have hall : SortedByPieces size (fun i => goesDown (number + i))
        (tooth ++ (x :: xs).drop size) _ := .append hfirst hrest hsorted hbehind
    rwa [List.take_append_drop] at hall

/-- A saw is sorted by its teeth. -/
theorem sortedByPieces_saw (count : Nat) (goesDown : Nat → Bool) (xs : List Int32) :
    SortedByPieces (max 1 (xs.length / max 1 count)) (fun i => goesDown i) xs
      (saw count goesDown xs) := by
  have hsize : 0 < toothLength xs.length count := Nat.le_max_left 1 _
  have hteeth := sortedByPieces_teeth hsize goesDown 0 xs
  simp only [Nat.zero_add] at hteeth
  exact hteeth

end Saws

/-! ### A saw that refuses -/

/-- A quotient, if the divisor is not zero. -/
def quotient? (a b : Nat) : Option Nat := if b = 0 then none else some (a / b)

/-- A remainder, if the modulus is not zero. -/
def remainder? (a b : Nat) : Option Nat := if b = 0 then none else some (a % b)

/-- The direction of a tooth, if repeated directions have one for it. -/
def direction? (directions : List Int32) (number : Nat) : Option Bool := do
  let slot ← remainder? number directions.length
  let direction ← directions[slot]?
  return direction == 1

/-- Sort one tooth after another, as long as each has a direction. -/
def teeth? (size : Nat) (hsize : 0 < size) (goesDown? : Nat → Option Bool) (number : Nat) :
    List Int32 → Option (List Int32)
  | [] => some []
  | x :: xs => do
    let goesDown ← goesDown? number
    let tooth := (x :: xs).take size
    let rest ← teeth? size hsize goesDown? (number + 1) ((x :: xs).drop size)
    return (if goesDown then descending tooth else ascending tooth) ++ rest
termination_by xs => xs.length
decreasing_by
  simp only [List.length_drop, List.length_cons]
  omega

/-- A saw, if the lengths of its teeth can be computed and are not zero. -/
def saw? (count : Nat) (goesDown? : Nat → Option Bool) (xs : List Int32) :
    Option (List Int32) := do
  let ratio ← quotient? xs.length (max 1 count)
  if hsize : 0 < max 1 ratio then teeth? (max 1 ratio) hsize goesDown? 0 xs else none

section Refusing

variable {goesDown? : Nat → Option Bool} {goesDown : Nat → Bool}

theorem teeth?_eq_some {size : Nat} (hsize : 0 < size)
    (h : ∀ number, goesDown? number = some (goesDown number)) (number : Nat) (xs : List Int32) :
    teeth? size hsize goesDown? number xs = some (teeth size hsize goesDown number xs) := by
  fun_induction teeth size hsize goesDown number xs with
  | case1 number => rw [teeth?]
  | case2 number x xs tooth ih =>
    rw [teeth?, h number, ih]
    rfl

/-- A saw goes through if every tooth has a direction. -/
theorem saw?_eq_some (h : ∀ number, goesDown? number = some (goesDown number)) (count : Nat)
    (xs : List Int32) : saw? count goesDown? xs = some (saw count goesDown xs) := by
  have hratio : quotient? xs.length (max 1 count) = some (xs.length / max 1 count) :=
    if_neg (by omega)
  have hsize : 0 < max 1 (xs.length / max 1 count) := by omega
  rw [saw?, hratio, Option.bind_eq_bind, Option.bind_some, dif_pos hsize, teeth?_eq_some hsize h]
  rfl

section Directions

variable {directions : List Int32} (h : directions ≠ []) (number : Nat)

include h

/-- Repeated directions have one for every tooth, unless there are none. -/
theorem exists_direction :
    ∃ direction, directions[number % directions.length]? = some direction ∧
      directions.toArray.getD (number % directions.toArray.size) 0 = direction := by
  have hslot : number % directions.length < directions.length :=
    Nat.mod_lt _ (List.length_pos_iff.mpr h)
  refine ⟨directions[number % directions.length], List.getElem?_eq_getElem hslot, ?_⟩
  rw [Array.getD_eq_getD_getElem?, List.size_toArray, List.getElem?_toArray,
    List.getElem?_eq_getElem hslot, Option.getD_some]

theorem direction?_eq_some :
    direction? directions number =
      some (directions.toArray.getD (number % directions.toArray.size) 0 == 1) := by
  obtain ⟨direction, hsome, hget⟩ := exists_direction h number
  have hremainder : remainder? number directions.length = some (number % directions.length) :=
    if_neg (Nat.ne_of_gt (List.length_pos_iff.mpr h))
  rw [direction?, hremainder, Option.bind_eq_bind, Option.bind_some, hsome, hget]
  rfl

theorem getD_beq_one_iff :
    (directions.toArray.getD (number % directions.toArray.size) 0 == 1) = true ↔
      directions[number % directions.length]? = some 1 := by
  obtain ⟨direction, hsome, hget⟩ := exists_direction h number
  rw [hsome, hget, beq_iff_eq, Option.some.injEq]

end Directions

end Refusing

/-- `ys` is `xs` with every tooth sorted in the direction of its number, and nothing is out of range
on the way there. -/
structure IsSaw (count : Nat) (goesDown? : Nat → Option Bool) (goesDown : Nat → Prop)
    (xs ys : List Int32) : Prop where
  inRange : saw? count goesDown? xs = some ys
  sorted : SortedByPieces (max 1 (xs.length / max 1 count)) goesDown xs ys

theorem isSaw_saw {goesDown? : Nat → Option Bool} {goesDown : Nat → Bool} {P : Nat → Prop}
    (h : ∀ number, goesDown? number = some (goesDown number))
    (hgoesDown : ∀ number, goesDown number ↔ P number) (count : Nat) (xs : List Int32) :
    IsSaw count goesDown? P xs (saw count goesDown xs) := by
  have hP : P = fun number => goesDown number = true :=
    funext fun number => propext (hgoesDown number).symm
  rw [hP]
  exact ⟨saw?_eq_some h count xs, sortedByPieces_saw count goesDown xs⟩

/-- In a mixed saw the teeth go down whose repeated direction is one. -/
theorem isSaw_mixed {directions : List Int32} (h : directions ≠ []) (count : Nat)
    (xs : List Int32) :
    IsSaw count (direction? directions)
      (fun number => directions[number % directions.length]? = some 1) xs
      (saw count (fun number =>
        directions.toArray.getD (number % directions.toArray.size) 0 == 1) xs) :=
  isSaw_saw (direction?_eq_some h) (getD_beq_one_iff h) count xs

end VectorizedSort.Shape
