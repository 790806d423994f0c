import VectorizedSort.Register.Lanes

/-! # The odd-even exchange network

A fixed number of rounds of neighbour exchanges. Even rounds pair the slots from the first one on,
odd rounds from the second one on. The network finishes an array in which every element is at most
a short run away from its place. A round is carried out in chunks of two registers. -/

namespace VectorizedSort

variable {α : Type} [Element α]

/-- Runs of at most this many elements are left to the exchange network. -/
def runThreshold : Nat := 8

/-- Exchange the pairs among the `remaining` slots from `pos` on. An odd slot is left alone. -/
def exchangeRound (lanes : Lanes) (v : Array α) (pos remaining : Nat) : Array α :=
  if 2 ≤ remaining then
    let span := min remaining (2 * lanes.width)
    exchangeRound lanes (lanes.exchangePairs v pos (span / 2)) (pos + span) (remaining - span)
  else v
termination_by remaining
decreasing_by
  have := lanes.width_pos
  omega

/-- Run all rounds of the network, one more than a run has elements. -/
def exchangeSort (lanes : Lanes) (v : Array α) : Array α :=
  (List.range (runThreshold + 1)).foldl
    (fun v round => exchangeRound lanes v (round % 2) (v.size - round % 2)) v

end VectorizedSort
