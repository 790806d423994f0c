import Mathlib.Data.List.DropRight
import VectorizedSort.ByteInput
import VectorizedSort.Element.Binary32
import VectorizedSort.Proofs.Order

/-! # Byte strings as inputs

Reading an array from bytes and writing it back gives the bytes without those that fill no word, and
every array is read from some bytes, its own ones. The pivots that the first two bytes choose are
always such as a partition asks for: both stand in the array, the first one at most the second.
There are none exactly if the bytes make no array or one of the chosen elements is unordered. -/

namespace VectorizedSort

open Element

/-! ### Words -/

/-- The value of a word is that of its bytes, the first one being the lowest. -/
theorem toNat_wordOfBytes (a b c d : UInt8) :
    (wordOfBytes a b c d).toNat =
      a.toNat + 256 * (b.toNat + 256 * (c.toNat + 256 * d.toNat)) := by
  have ha := a.toNat_lt
  have hb := b.toNat_lt
  have hc := c.toNat_lt
  have hd := d.toNat_lt
  rw [wordOfBytes, UInt32.toNat_ofNat']
  omega

/-- The bytes of a word of four bytes. -/
theorem bytesOfWord_wordOfBytes (a b c d : UInt8) :
    bytesOfWord (wordOfBytes a b c d) = [a, b, c, d] := by
  have ha := a.toNat_lt
  have hb := b.toNat_lt
  have hc := c.toNat_lt
  have hd := d.toNat_lt
  simp only [bytesOfWord, toNat_wordOfBytes, List.cons.injEq, ← UInt8.toNat_inj,
    UInt8.toNat_ofNat', and_true]
  omega

/-- The word of the four bytes of a word. -/
theorem wordsOfBytes_bytesOfWord_append (w : UInt32) (rest : List UInt8) :
    wordsOfBytes (bytesOfWord w ++ rest) = w :: wordsOfBytes rest := by
  have hw := w.toNat_lt
  rw [bytesOfWord, List.cons_append, List.cons_append, List.cons_append, List.cons_append,
    List.nil_append, wordsOfBytes, List.cons.injEq]
  refine ⟨?_, rfl⟩
  rw [← UInt32.toNat_inj, toNat_wordOfBytes]
  simp only [UInt8.toNat_ofNat']
  omega

/-- All words are read from their own bytes. -/
theorem wordsOfBytes_flatMap_bytesOfWord (words : List UInt32) :
    wordsOfBytes (words.flatMap bytesOfWord) = words := by
  induction words with
  | nil => rfl
  | cons w words ih => rw [List.flatMap_cons, wordsOfBytes_bytesOfWord_append, ih]

/-- A byte string consists of the bytes of its words and of fewer bytes than make a word. -/
theorem exists_tail (data : List UInt8) :
    ∃ tail : List UInt8, data = (wordsOfBytes data).flatMap bytesOfWord ++ tail ∧
      tail.length < 4 := by
  fun_induction wordsOfBytes data with
  | case1 a b c d rest ih =>
    obtain ⟨tail, hrest, htail⟩ := ih
    refine ⟨tail, ?_, htail⟩
    rw [List.flatMap_cons, bytesOfWord_wordOfBytes, List.append_assoc, ← hrest]
    rfl
  | case2 data hshort =>
    refine ⟨data, rfl, ?_⟩
    match data with
    | [] | [_] | [_, _] | [_, _, _] => simp
    | a :: b :: c :: d :: rest => exact absurd rfl (hshort a b c d rest)

theorem length_flatMap_bytesOfWord (words : List UInt32) :
    (words.flatMap bytesOfWord).length = 4 * words.length := by
  induction words with
  | nil => rfl
  | cons w words ih =>
    rw [List.flatMap_cons, List.length_append, ih, List.length_cons, Nat.mul_succ, Nat.add_comm]
    rfl

theorem length_wordsOfBytes (data : List UInt8) : (wordsOfBytes data).length = data.length / 4 := by
  obtain ⟨tail, hdata, htail⟩ := exists_tail data
  have hlength := congrArg List.length hdata
  rw [List.length_append, length_flatMap_bytesOfWord] at hlength
  omega

/-- The bytes of the words are those that were read, without the last ones that fill no word. -/
theorem flatMap_bytesOfWord_wordsOfBytes (data : List UInt8) :
    (wordsOfBytes data).flatMap bytesOfWord = data.rdrop (data.length % 4) := by
  obtain ⟨tail, hdata, htail⟩ := exists_tail data
  have hlength := congrArg List.length hdata
  rw [List.length_append, length_flatMap_bytesOfWord] at hlength
  have hrest : data.length % 4 = tail.length := by omega
  rw [hrest]
  nth_rewrite 2 [hdata]
  exact List.rdrop_append_length.symm

/-! ### Elements -/

section Elements

variable {α : Type} [Element α]

/-- The bytes that store an array. -/
def bytesOfElements (v : Array α) : List UInt8 :=
  v.toList.flatMap fun x => bytesOfWord (toWord x)

theorem size_elementsOfBytes (data : List UInt8) :
    (elementsOfBytes α data).size = data.length / 4 := by
  rw [elementsOfBytes, List.size_toArray, List.length_map, length_wordsOfBytes]

/-- The elements are stored in the words that were read, whatever kind they are of. -/
theorem map_toWord_elementsOfBytes (data : List UInt8) :
    (elementsOfBytes α data).map toWord = (wordsOfBytes data).toArray := by
  have hword : toWord ∘ (ofWord : UInt32 → α) = id := funext toWord_ofWord
  rw [elementsOfBytes, List.map_toArray, List.map_map, hword, List.map_id]

theorem bytesOfElements_elementsOfBytes (data : List UInt8) :
    bytesOfElements (elementsOfBytes α data) = data.rdrop (data.length % 4) := by
  have hwords := congrArg Array.toList (map_toWord_elementsOfBytes (α := α) data)
  rw [Array.toList_map] at hwords
  rw [bytesOfElements, ← List.flatMap_map, hwords]
  exact flatMap_bytesOfWord_wordsOfBytes data

theorem elementsOfBytes_bytesOfElements (v : Array α) :
    elementsOfBytes α (bytesOfElements v) = v := by
  have helement : (ofWord : UInt32 → α) ∘ toWord = id := funext ofWord_toWord
  rw [bytesOfElements, ← List.flatMap_map, elementsOfBytes, wordsOfBytes_flatMap_bytesOfWord,
    List.map_map, helement, List.map_id, Array.toArray_toList]

end Elements

/-! ### Pivots -/

section Pivots

variable {α : Type} [Element α] {data : List UInt8} {v : Array α}

/-- The slots that the first two bytes choose in an array of a size. -/
def chosenSlots (data : List UInt8) (size : Nat) : List Nat :=
  (data.take 2).map fun byte => byte.toNat % size

/-- The two slots in the order in which a partition wants them. -/
structure AreChosen (data : List UInt8) (v : Array α) (a b : Nat) : Prop where
  perm : [a, b].Perm (chosenSlots data v.size)
  left_lt : a < v.size
  right_lt : b < v.size
  le : le v[a] v[b]

/-- One of the slots holds an unordered element. -/
def ChoosesUnordered (data : List UInt8) (v : Array α) : Prop :=
  ∃ i ∈ chosenSlots data v.size, ∃ h : i < v.size, ¬ isOrdered v[i]

/-- Two elements can be put in order if both are ordered. -/
theorem lt_or_le_iff {x y : α} : lt y x ∨ le x y ↔ isOrdered x ∧ isOrdered y := by
  constructor
  · rintro (hlt | hle)
    · exact ⟨isOrdered_right_of_lt hlt, isOrdered_left_of_le (le_of_lt hlt)⟩
    · exact ⟨isOrdered_left_of_le hle, isOrdered_right_of_le hle⟩
  · rintro ⟨hx, hy⟩
    by_cases hle : le x y
    · exact Or.inr hle
    · exact Or.inl ((not_le_iff_lt hx hy).mp hle)

theorem areChosen_of_pivotPair {a b : Nat} (h : pivotPair data v = some (a, b)) :
    AreChosen data v a b := by
  unfold pivotPair at h
  split at h
  · rename_i x y rest
    split at h
    · rename_i hpos
      have hx : x.toNat % v.size < v.size := Nat.mod_lt _ hpos
      have hy : y.toNat % v.size < v.size := Nat.mod_lt _ hpos
      simp only at h
      split at h
      · rename_i hlt
        cases h
        exact ⟨List.Perm.swap _ _ _, hy, hx, le_of_lt hlt⟩
      · split at h
        · rename_i hle
          cases h
          exact ⟨List.Perm.refl _, hx, hy, hle⟩
        · cases h
    · cases h
  · cases h

/-- There are no pivots without two bytes and an element, or if a chosen element is unordered. -/
theorem pivotPair_eq_none_iff :
    pivotPair data v = none ↔ data.length < 2 ∨ v.size = 0 ∨ ChoosesUnordered data v := by
  match data with
  | [] | [_] => simp [pivotPair]
  | x :: y :: rest =>
    by_cases hpos : 0 < v.size
    · have hx : x.toNat % v.size < v.size := Nat.mod_lt _ hpos
      have hy : y.toNat % v.size < v.size := Nat.mod_lt _ hpos
      have hchooses : ChoosesUnordered (x :: y :: rest) v ↔
          ¬ (isOrdered v[x.toNat % v.size] ∧ isOrdered v[y.toNat % v.size]) := by
        simp [ChoosesUnordered, chosenSlots, hx, hy, imp_iff_not_or]
      have hlength : ¬ (x :: y :: rest).length < 2 := by simp
      rw [hchooses, ← lt_or_le_iff, pivotPair, dif_pos hpos]
      simp only [hlength, Nat.ne_of_gt hpos, false_or]
      split
      · simp_all
      · split <;> simp_all
    · simp [pivotPair, Nat.eq_zero_of_not_pos hpos]

end Pivots

variable {α : Type} [Element α]

/-- A byte string is read as an array of as many elements as it fills words, of either kind with the
same words. Written back, the elements give the bytes that fill words, and every array is read from
its own bytes. The first two bytes choose two slots of this array, and unless there are too few
bytes for an element or a chosen element is unordered, the pair is those slots, the one of the
element that is at most the other first. -/
theorem byte_strings_give_inputs (data : List UInt8) :
    (elementsOfBytes α data).size = data.length / 4 ∧
      bytesOfElements (elementsOfBytes α data) = data.rdrop (data.length % 4) ∧
      (∀ v : Array α, elementsOfBytes α (bytesOfElements v) = v) ∧
      (elementsOfBytes α data).map toWord = (elementsOfBytes Int32 data).map toWord ∧
      let v := elementsOfBytes α data
      (pivotPair data v = none ↔ data.length < 4 ∨ ChoosesUnordered data v) ∧
        ∀ a b, pivotPair data v = some (a, b) → AreChosen data v a b := by
  have hsize : (elementsOfBytes α data).size = data.length / 4 := size_elementsOfBytes data
  have hfew : data.length < 2 ∨ (elementsOfBytes α data).size = 0 ↔ data.length < 4 := by omega
  refine ⟨hsize, bytesOfElements_elementsOfBytes data, elementsOfBytes_bytesOfElements, ?_, ?_⟩
  · rw [map_toWord_elementsOfBytes, map_toWord_elementsOfBytes]
  · refine ⟨?_, fun _ _ => areChosen_of_pivotPair⟩
    rw [pivotPair_eq_none_iff, ← or_assoc, hfew]

/-- Two floats and a byte that fills no word, and a NaN, which both bytes choose. -/
theorem byte_strings_give_inputs_of_nan :
    let data : List UInt8 := [0x01, 0x02, 0x80, 0x3f, 0x00, 0x00, 0x80, 0xbf, 0x07]
    let nan : List UInt8 := [0x00, 0x00, 0xc0, 0x7f]
    (elementsOfBytes Binary32 data).size = 2 ∧
      bytesOfElements (elementsOfBytes Binary32 data) =
        [0x01, 0x02, 0x80, 0x3f, 0x00, 0x00, 0x80, 0xbf] ∧
      AreChosen data (elementsOfBytes Binary32 data) 1 0 ∧
      pivotPair nan (elementsOfBytes Binary32 nan) = none := by
  intro data nan
  obtain ⟨hsize, hbytes, -, -, -, hpair⟩ := byte_strings_give_inputs (α := Binary32) data
  obtain ⟨-, -, -, -, hnone, -⟩ := byte_strings_give_inputs (α := Binary32) nan
  have hunordered : ChoosesUnordered nan (elementsOfBytes Binary32 nan) :=
    ⟨0, by decide, by decide, by decide⟩
  exact ⟨hsize.trans (by decide), hbytes.trans (by decide), hpair 1 0 (by decide),
    hnone.mpr (Or.inr hunordered)⟩

end VectorizedSort
