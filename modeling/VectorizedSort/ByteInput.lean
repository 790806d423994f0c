import VectorizedSort.Element.Basic

/-! # Arrays from a byte string

Any byte string can be read as an array to sort or to partition: each four bytes are a word, lowest
byte first, and bytes that do not fill a word are dropped. The first two bytes choose two pivots as
well, in the order in which a partition wants them. -/

namespace VectorizedSort

/-- The word of four bytes, the lowest one first. -/
def wordOfBytes (a b c d : UInt8) : UInt32 :=
  UInt32.ofNat (a.toNat + 256 * (b.toNat + 256 * (c.toNat + 256 * d.toNat)))

/-- The words of a byte string, without the bytes at its end that fill no word. -/
def wordsOfBytes : List UInt8 → List UInt32
  | a :: b :: c :: d :: rest => wordOfBytes a b c d :: wordsOfBytes rest
  | _ => []

/-- The four bytes of a word, the lowest one first. -/
def bytesOfWord (w : UInt32) : List UInt8 :=
  [UInt8.ofNat w.toNat, UInt8.ofNat (w.toNat / 256), UInt8.ofNat (w.toNat / 65536),
    UInt8.ofNat (w.toNat / 16777216)]

/-- The elements whose words a byte string holds. -/
def elementsOfBytes (α : Type) [Element α] (data : List UInt8) : Array α :=
  ((wordsOfBytes data).map Element.ofWord).toArray

/-- The indices that the first two bytes choose, the one of the smaller element first. There are
none if there is no element to choose or the chosen elements are not ordered. -/
def pivotPair {α : Type} [Element α] (data : List UInt8) (v : Array α) : Option (Nat × Nat) :=
  match data with
  | x :: y :: _ =>
    if h : 0 < v.size then
      let i := x.toNat % v.size
      let j := y.toNat % v.size
      have hi : i < v.size := Nat.mod_lt _ h
      have hj : j < v.size := Nat.mod_lt _ h
      if Element.lt v[j] v[i] then some (j, i)
      else if Element.le v[i] v[j] then some (i, j)
      else none
    else none
  | _ => none

end VectorizedSort
