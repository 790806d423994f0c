import VectorizedSort.Entry.Guarded
import VectorizedSort.Proofs.Entry.Words

/-! # The guarded entry points

The arguments of a guarded call are put to a fixed sequence of checks. The first one that fails is
the reason for which the process ends, and then nothing has been touched. A call that passes all of
them succeeds and does to its range what the typed call does to the elements there. -/

namespace VectorizedSort

/-! ### Sequences of checks -/

/-- A check on the arguments of a call, with the cause that is reported if it fails. -/
structure Check where
  fails : Bool
  cause : Abort

/-- The cause that the first failing one of several checks reports. -/
def firstFailing : List Check → Option Abort
  | [] => none
  | check :: checks => if check.fails then some check.cause else firstFailing checks

theorem firstFailing_append (checks checks' : List Check) :
    firstFailing (checks ++ checks') = (firstFailing checks).or (firstFailing checks') := by
  induction checks with
  | nil => rfl
  | cons check checks ih =>
    rw [List.cons_append, firstFailing, firstFailing]
    split
    · rfl
    · exact ih

/-- A computation carries out some checks: it ends with the cause of the first one that fails, and
with a result for which `P` holds if none does. -/
structure CarriesOut {γ : Type} (checks : List Check) (r : Except Abort γ) (P : γ → Prop) : Prop where
  failing : ∀ cause, firstFailing checks = some cause → r = .error cause
  passing : firstFailing checks = none → ∃ c, r = .ok c ∧ P c

section CarriesOut

variable {γ δ : Type} {P : γ → Prop} {Q : δ → Prop} {r : Except Abort γ}

theorem CarriesOut.pure {c : γ} (h : P c) : CarriesOut [] (.ok c) P where
  failing _ hcause := by cases hcause
  passing _ := ⟨c, rfl, h⟩

theorem CarriesOut.single {check : Check} (hfail : check.fails → r = .error check.cause)
    (hpass : ¬ check.fails → ∃ c, r = .ok c ∧ P c) : CarriesOut [check] r P where
  failing cause hcause := by
    rw [firstFailing, firstFailing] at hcause
    split at hcause
    · cases hcause
      exact hfail ‹_›
    · cases hcause
  passing hnone := by
    rw [firstFailing, firstFailing] at hnone
    split at hnone
    · cases hnone
    · exact hpass ‹_›

/-- The checks of what comes after are carried out if none has failed before. -/
theorem CarriesOut.bind {checks checks' : List Check} {f : γ → Except Abort δ}
    (h : CarriesOut checks r P) (hf : ∀ c, P c → CarriesOut checks' (f c) Q) :
    CarriesOut (checks ++ checks') (r >>= f) Q := by
  constructor
  · intro cause hcause
    rw [firstFailing_append] at hcause
    cases hbefore : firstFailing checks with
    | some earlier =>
      rw [hbefore, Option.some_or] at hcause
      cases hcause
      rw [h.failing _ hbefore]
      rfl
    | none =>
      rw [hbefore, Option.none_or] at hcause
      obtain ⟨c, rfl, hc⟩ := h.passing hbefore
      exact (hf c hc).failing cause hcause
  · intro hnone
    rw [firstFailing_append, Option.or_eq_none_iff] at hnone
    obtain ⟨c, rfl, hc⟩ := h.passing hnone.1
    exact (hf c hc).passing hnone.2

end CarriesOut

/-! ### The checks of a call -/

section Checks

variable {tag start stop : Int32}

end Checks

/-! ### The kind -/

section Width

variable {tag : Int32}

variable {γ : Type} {checks : List Check} {r : Except Abort (Kind × γ)} {P : Kind × γ → Prop}
  (h : CarriesOut checks r P) (htag : ∀ c, P c → c.1.tag = tag)

include h htag

end Width

/-! ### Guarded calls -/

section Calls

variable (host : Host) (arena : Arena) {tag start stop pivot1 pivot2 : Int32} {cause : Abort}

end Calls

end VectorizedSort
