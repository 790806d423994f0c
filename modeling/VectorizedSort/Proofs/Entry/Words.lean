import VectorizedSort.Entry.Words
import VectorizedSort.Proofs.Entry.Calls

/-! # Calls on words

A call on a range of words does what the typed call does on the elements that the words store, and
leaves the words around the range alone. A call that is given up has touched nothing. For a kind
that cannot be sorted every call is given up, also on an empty range. -/

namespace VectorizedSort

/-! ### Rewriting a range -/

/-- The words of a range have become those of some elements, and the other ones are as before. -/
structure Rewritten {α : Type} [Element α] (words : Array UInt32) (start stop : Nat)
    (items : Array α) (words' : Array UInt32) : Prop where
  inside : slice words' start stop = items.map Element.toWord
  outside : ∀ i, i < start ∨ stop ≤ i → words'[i]? = words[i]?

section Range

variable {α : Type} [Element α] {words : Array UInt32} {start stop : Nat} {items : Array α}

end Range

/-! ### Giving up -/

/-- If the call was given up, nothing has been touched. -/
def Outcome.Untouched {β : Type} (words : Array UInt32) (r : Outcome (Array UInt32) Fault β) : Prop :=
  ∀ cause, r.answer = .error cause → r = .giveUp words cause

namespace Outcome.Untouched

variable {β : Type} (words words' : Array UInt32)

theorem giveUp (fault : Fault) : (Outcome.giveUp words fault : Outcome _ _ β).Untouched words := by
  intro cause h
  cases h
  rfl

theorem ok (log : List Record) (b : β) : (⟨words', log, .ok b⟩ : Outcome _ _ β).Untouched words := by
  intro cause h
  cases h

end Outcome.Untouched

/-! ### Typed calls on words -/

/-- The elements in a range of words have been partitioned around two of them. All positions are
those in the whole array. -/
structure PartitionedIn (α : Type) [Element α] (host : Host) (words : Array UInt32)
    (start stop index1 index2 : Nat) (words' : Array UInt32) (lower upper : Nat) : Prop where
  typed : ∃ bands, partition host (readRange α words start stop) (index1 - start) (index2 - start)
      = .ok bands ∧ Rewritten words start stop bands.value.items words' ∧
    lower = start + bands.value.lower ∧ upper = start + bands.value.upper
  le_lower : start ≤ lower
  lower_le : lower ≤ upper
  upper_le : upper ≤ stop

section Typed

variable (α : Type) [Element α] (host : Host) {words : Array UInt32} {start stop : Nat}

variable {index1 index2 : Nat}

end Typed

/-! ### Calls on words of a kind -/

/-- The words in a range, read as elements of a kind, have been partitioned. -/
def PartitionedAs (host : Host) (words : Array UInt32) (start stop index1 index2 : Nat)
    (words' : Array UInt32) (lower upper : Nat) : Kind → Prop
  | .int32 => PartitionedIn Int32 host words start stop index1 index2 words' lower upper
  | .float32 => PartitionedIn Binary32 host words start stop index1 index2 words' lower upper
  | .int64 | .float64 => False

section Kinds

variable (host : Host) {words : Array UInt32} {kind : Kind} {start stop index1 index2 : Nat}

theorem PartitionedAs.bounds {words' : Array UInt32} {lower upper : Nat}
    (h : PartitionedAs host words start stop index1 index2 words' lower upper kind) :
    start ≤ lower ∧ lower ≤ upper ∧ upper ≤ stop := by
  cases kind with
  | int32 | float32 =>
    obtain ⟨-, hstart, hle, hstop⟩ := h
    exact ⟨hstart, hle, hstop⟩
  | int64 | float64 => exact h.elim

variable (words start stop index1 index2)

variable (kind)

end Kinds

end VectorizedSort
