import Mathlib.Data.List.Forall2
import VectorizedSort.Proofs.Numeric.Nearest
import VectorizedSort.Proofs.Pattern.Seeds
import VectorizedSort.Proofs.Pattern.Shape

/-! # Patterns made from random arrays

Calls that start from one seed draw the same values, so a shaped pattern is made from the very array
that the plain random call answers: a saw, an organ or a sorted start moves elements inside of its
parts only, and a NaN takes the place of the float at the same index. The directions of a mixed saw
are those that the bounded random call answers, one more than there are teeth asked for, and they
are repeated for the teeth behind. None of this depends on what a sampler draws. -/

namespace VectorizedSort

variable {β γ : Type}

/-! ### Drawing -/

/-- What is drawn a number of times from the state of a seed. -/
def drawn {sampler : Sampler} (draw : sampler.Draw β) (count : Nat) (seed : UInt64) : List β :=
  (Sampler.repeated draw count (sampler.ofSeed seed)).1

section Drawn

variable {sampler : Sampler} (draw : sampler.Draw β) (count : Nat)

theorem Sampler.length_repeated (state : sampler.State) :
    (repeated draw count state).1.length = count := by
  induction count generalizing state with
  | zero => rfl
  | succ n ih => exact congrArg (· + 1) (ih (draw state).2)

theorem length_drawn (seed : UInt64) : (drawn draw count seed).length = count :=
  Sampler.length_repeated draw count _

end Drawn

/-- Sprinkling either puts a NaN or keeps the element. -/
theorem Pattern.forall₂_sprinkle {sampler : Sampler} (probability : Rat) (xs : List Binary32)
    (state : sampler.State) :
    List.Forall₂ (fun y x => y = .quietNaN ∨ y = x) (sprinkle sampler probability xs state).1
      xs := by
  induction xs generalizing state with
  | nil => exact .nil
  | cons x xs ih => exact .cons (ite_eq_or_eq _ _ _) (ih (sampler.chance probability state).2)

/-! ### Answers on a settled seed -/

/-- In every process that has settled on the seed, the computation gives the answer and changes
nothing. -/
def Gives (seed : UInt64) (m : Making β) (answer : Except PatternFault β) : Prop :=
  ∀ seeds : Seeds, seeds.Has seed → outcome m seeds = (answer, seeds)

namespace Gives

variable {seed : UInt64} {m : Making β} {x : β}

theorem pure (x : β) : Gives seed (Pure.pure x : Making β) (.ok x) := fun _ _ => rfl

theorem bind {f : β → Making γ} {answer : Except PatternFault γ} (hm : Gives seed m (.ok x))
    (hf : Gives seed (f x) answer) : Gives seed (m >>= f) answer := by
  intro seeds hseeds
  rw [outcome_bind, hm seeds hseeds]
  exact hf seeds hseeds

theorem bind_error {f : β → Making γ} {fault : PatternFault} (hm : Gives seed m (.error fault)) :
    Gives seed (m >>= f) (.error fault) := by
  intro seeds hseeds
  rw [outcome_bind, hm seeds hseeds]

section Calls

variable {sampler : Sampler} {call : PatternCall}

theorem answerWith {answer : Except PatternFault PatternAnswer}
    (h : Gives seed (call.runWith sampler) answer) : call.answerWith sampler seed = answer :=
  congrArg Prod.fst (h _ (Or.inl rfl))

/-- A call that makes its answer of what a computation gives. -/
theorem answerWith_ok (f : β → PatternAnswer) (hm : Gives seed m (.ok x))
    (hrun : call.runWith sampler = m >>= fun x => Pure.pure (f x)) :
    call.answerWith sampler seed = .ok (f x) :=
  answerWith (hrun ▸ hm.bind (pure (f x)))

end Calls

end Gives

namespace Pattern

variable (sampler : Sampler) (seed : UInt64)

theorem gives_stateOf : Gives seed (Seeds.stateOf sampler) (.ok (sampler.ofSeed seed)) :=
  Gives.bind (fun _ hseeds => Seeds.outcome_current_of_has hseeds) (.pure _)

variable {length : Nat} (h : length ≤ maxLength)

include h

theorem gives_checkLength : Gives seed (checkLength length) (.ok ()) := by
  rw [checkLength, if_neg (Nat.not_lt.mpr h)]
  exact .pure ()

theorem gives_random : Gives seed (random sampler length) (.ok (drawn sampler.integer length seed)) :=
  (gives_stateOf sampler seed).bind ((gives_checkLength seed h).bind (.pure _))

theorem gives_randomWithin {bounds : IntBounds} (hbounds : ¬ bounds.isEmpty) :
    Gives seed (randomWithin sampler length bounds)
      (.ok (drawn (sampler.integerWithin bounds) length seed)) := by
  refine (gives_stateOf sampler seed).bind ?_
  rw [if_neg hbounds]
  exact (gives_checkLength seed h).bind (.pure _)

theorem gives_saw (teeth : Nat) (goesDown : Nat → Bool) :
    Gives seed (saw sampler length teeth goesDown)
      (.ok (Shape.saw teeth goesDown (drawn sampler.integer length seed))) := by
  unfold saw
  split
  · rename_i hzero
    have hnone : drawn sampler.integer length seed = [] :=
      List.length_eq_zero_iff.mp ((length_drawn _ length seed).trans hzero)
    rw [hnone, Shape.saw, Shape.teeth]
    exact .pure []
  · exact (gives_random sampler seed h).bind (.pure _)

/-- A mixed saw takes its directions from one more random integer than there are teeth. -/
theorem gives_sawMixed {teeth : Nat} (hteeth : max 1 teeth + 1 ≤ maxLength) :
    let directions := (drawn (sampler.integerWithin ⟨0, 1, true⟩) (max 1 teeth + 1) seed).toArray
    Gives seed (sawMixed sampler length teeth)
      (.ok (Shape.saw teeth (fun number => directions.getD (number % directions.size) 0 == 1)
        (drawn sampler.integer length seed))) := by
  have hcount : ¬ UInt64.size ≤ max 1 teeth + 1 :=
    Nat.not_le.mpr (Nat.lt_of_le_of_lt hteeth (by decide))
  have hbounds : ¬ IntBounds.isEmpty ⟨0, 1, true⟩ := by decide
  rw [sawMixed, if_neg hcount]
  exact (gives_randomWithin sampler seed hteeth hbounds).bind (gives_saw sampler seed h teeth _)

theorem gives_randomSorted {percent : Percentage} (hcount : Shape.share length percent ≤ length) :
    Gives seed (randomSorted sampler length percent)
      (.ok (Shape.sortedStart (Shape.share length percent)
        (drawn sampler.integer length seed))) := by
  refine (gives_random sampler seed h).bind ?_
  rw [if_neg (Nat.not_lt.mpr hcount)]
  exact .pure _

theorem gives_randomSorted_error {percent : Percentage}
    (hcount : length < Shape.share length percent) :
    Gives seed (randomSorted sampler length percent)
      (.error (.sortedPastEnd (Shape.share length percent) length)) := by
  refine (gives_random sampler seed h).bind ?_
  rw [if_pos hcount]
  exact fun _ _ => rfl

theorem gives_randomFloats :
    Gives seed (randomFloats sampler length) (.ok (drawn sampler.float length seed)) :=
  (gives_stateOf sampler seed).bind ((gives_checkLength seed h).bind (.pure _))

theorem gives_randomFloatsWithNaN {percent : Percentage} {probability : Rat}
    (hpercent : percent.probability? = some probability) :
    Gives seed (randomFloatsWithNaN sampler length percent)
      (.ok (sprinkle sampler probability (drawn sampler.float length seed)
        (sampler.ofSeed seed)).1) := by
  refine (gives_stateOf sampler seed).bind ((gives_randomFloats sampler seed h).bind ?_)
  split
  · rename_i hzero
    have hnone : drawn sampler.float length seed = [] :=
      List.length_eq_zero_iff.mp ((length_drawn _ length seed).trans hzero)
    rw [hnone]
    exact .pure []
  · rw [hpercent]
    exact .pure _

end Pattern

/-- From zero to one hundred percent, both included, are probabilities. -/
theorem Percentage.exists_probability {percent : Rat} (hnonneg : 0 ≤ percent)
    (hle : percent ≤ 100) :
    ∃ probability, (percent : Percentage).probability? = some probability := by
  have hratio : 0 ≤ percent / 100 := div_nonneg hnonneg (by norm_num)
  have hratio_le : percent / 100 ≤ 1 := (div_le_one (by norm_num)).mpr hle
  have hprobability := BinaryFormat.double.nearest_nonneg hratio
  have hprobability_le : BinaryFormat.double.nearest (percent / 100) ≤ 1 :=
    BinaryFormat.nearest_le_one (by decide) (by decide) hratio hratio_le
  refine ⟨BinaryFormat.double.nearest (percent / 100), if_neg ?_⟩
  rintro (hlt | hlt)
  · exact absurd hprobability (not_le.mpr hlt)
  · exact absurd hprobability_le (not_le.mpr hlt)

open PatternCall Shape

/-- With every sampler and for every seed, the shaped patterns are the random array of their length
with its parts sorted. Each tooth of a saw has the elements that stand in its place, going up, going
down, or, in a mixed saw, in the direction that the random directions, repeated, have for its number;
no division or look-up is out of range on the way. An organ goes up in its first half and down in the
other one. A sorted start is sorted up to the computed count, or refused if that is beyond the length,
whatever the percentage is. Floats with NaNs among them are the random floats of their length wherever
they are no NaN. -/
theorem patterns_rearrange_parts (sampler : Sampler) (seed : UInt64) {length : Nat}
    (h : length ≤ Pattern.maxLength) :
    ∃ items : List Int32, items.length = length ∧
      (random length).answerWith sampler seed = .ok (.integers items) ∧
      (∀ count, ∃ saw, (sawAscending length count).answerWith sampler seed = .ok (.integers saw) ∧
        IsSaw count (fun _ => some false) (fun _ => False) items saw) ∧
      (∀ count, ∃ saw, (sawDescending length count).answerWith sampler seed = .ok (.integers saw) ∧
        IsSaw count (fun _ => some true) (fun _ => True) items saw) ∧
      (∀ count, max 1 count + 1 ≤ Pattern.maxLength → ∃ directions saw,
        (randomWithin (max 1 count + 1) ⟨0, 1, true⟩).answerWith sampler seed =
          .ok (.integers directions) ∧
        directions.length = max 1 count + 1 ∧
        (sawMixed length count).answerWith sampler seed = .ok (.integers saw) ∧
        IsSaw count (direction? directions)
          (fun number => directions[number % directions.length]? = some 1) items saw) ∧
      (∃ pipes, (pipeOrgan length).answerWith sampler seed = .ok (.integers pipes) ∧
        SortedInto False (items.take (length / 2)) (pipes.take (length / 2)) ∧
        SortedInto True (items.drop (length / 2)) (pipes.drop (length / 2))) ∧
      (∀ percent, let count := share length percent
        (count ≤ length → ∃ sorted,
          (randomSorted length percent).answerWith sampler seed = .ok (.integers sorted) ∧
          SortedInto False (items.take count) (sorted.take count) ∧
          sorted.drop count = items.drop count) ∧
        (length < count → (randomSorted length percent).answerWith sampler seed =
          .error (.sortedPastEnd count length))) ∧
      ∃ floats : List Binary32, floats.length = length ∧
        (randomFloats length).answerWith sampler seed = .ok (.floats floats) ∧
        ∀ percent : Rat, 0 ≤ percent → percent ≤ 100 → ∃ sprinkled,
          (randomFloatsWithNaN length percent).answerWith sampler seed = .ok (.floats sprinkled) ∧
          List.Forall₂ (fun y x => y.isNaN ∨ y = x) sprinkled floats := by
  have hlength := length_drawn sampler.integer length seed
  refine ⟨drawn sampler.integer length seed, hlength, ?_, fun count => ?_, fun count => ?_,
    fun count hcount => ?_, ?_, fun percent => ⟨fun hcount => ?_, fun hcount => ?_⟩,
    drawn sampler.float length seed, length_drawn _ length seed, ?_,
    fun percent hnonneg hle => ?_⟩
  · exact (Pattern.gives_random sampler seed h).answerWith_ok .integers rfl
  · exact ⟨_, (Pattern.gives_saw sampler seed h count _).answerWith_ok .integers rfl,
      isSaw_saw (fun _ => rfl) (by simp) count _⟩
  · exact ⟨_, (Pattern.gives_saw sampler seed h count _).answerWith_ok .integers rfl,
      isSaw_saw (fun _ => rfl) (by simp) count _⟩
  · have hbounds : ¬ IntBounds.isEmpty ⟨0, 1, true⟩ := by decide
    have hdirections := length_drawn (sampler.integerWithin ⟨0, 1, true⟩) (max 1 count + 1) seed
    have hany : drawn (sampler.integerWithin ⟨0, 1, true⟩) (max 1 count + 1) seed ≠ [] :=
      List.ne_nil_of_length_eq_add_one hdirections
    exact ⟨_, _,
      (Pattern.gives_randomWithin sampler seed hcount hbounds).answerWith_ok .integers rfl,
      hdirections, (Pattern.gives_sawMixed sampler seed h hcount).answerWith_ok .integers rfl,
      isSaw_mixed hany count _⟩
  · have hparts := pipeOrgan_parts (drawn sampler.integer length seed)
    rw [hlength] at hparts
    refine ⟨_, ?_, hparts⟩
    exact (Pattern.gives_random sampler seed h).answerWith_ok
      (fun xs => .integers (Shape.pipeOrgan xs)) rfl
  · exact ⟨_, (Pattern.gives_randomSorted sampler seed h hcount).answerWith_ok .integers rfl,
      sortedStart_parts (hcount.trans_eq hlength.symm)⟩
  · exact Gives.answerWith (Pattern.gives_randomSorted_error sampler seed h hcount).bind_error
  · exact (Pattern.gives_randomFloats sampler seed h).answerWith_ok .floats rfl
  · obtain ⟨probability, hprobability⟩ := Percentage.exists_probability hnonneg hle
    have hsprinkled := Pattern.forall₂_sprinkle probability (drawn sampler.float length seed)
      (sampler.ofSeed seed)
    refine ⟨_, (Pattern.gives_randomFloatsWithNaN sampler seed h hprobability).answerWith_ok
      .floats rfl, hsprinkled.imp fun y x hy => hy.imp_left ?_⟩
    rintro rfl
    decide

/-- Five elements: a mixed saw for no teeth at all is one tooth in the first direction, half of the
elements are three, and neither twice as many as there are nor infinitely many can be sorted. -/
theorem patterns_rearrange_parts_of_five :
    5 ≤ Pattern.maxLength ∧ max 1 0 + 1 ≤ Pattern.maxLength ∧ share 5 (50 : Rat) = 3 ∧
      share 5 (200 : Rat) = 10 ∧ ∃ items : List Int32, items.length = 5 ∧
        (random 5).answerWith .stream 7 = .ok (.integers items) ∧
        (∃ directions saw : List Int32,
          (randomWithin 2 ⟨0, 1, true⟩).answerWith .stream 7 = .ok (.integers directions) ∧
          (sawMixed 5 0).answerWith .stream 7 = .ok (.integers saw) ∧
          SortedByPieces 5 (fun number => directions[number % 2]? = some 1) items saw) ∧
        (∃ sorted, (randomSorted 5 (50 : Rat)).answerWith .stream 7 = .ok (.integers sorted) ∧
          SortedInto False (items.take 3) (sorted.take 3) ∧ sorted.drop 3 = items.drop 3) ∧
        (randomSorted 5 (200 : Rat)).answerWith .stream 7 = .error (.sortedPastEnd 10 5) ∧
        (randomSorted 5 (.infinite false)).answerWith .stream 7 =
          .error (.sortedPastEnd 0xffffffffffffffff 5) ∧
        ∃ sprinkled,
          (randomFloatsWithNaN 5 (50 : Rat)).answerWith .stream 7 = .ok (.floats sprinkled) := by
  have hfive : 5 ≤ Pattern.maxLength := by decide
  have htwo : max 1 0 + 1 ≤ Pattern.maxLength := by decide
  have hhalf : share 5 (50 : Rat) = 3 := by decide +kernel
  have htwice : share 5 (200 : Rat) = 10 := by decide +kernel
  have hinfinite : share 5 (.infinite false) = 0xffffffffffffffff := by decide
  obtain ⟨items, hitems, hrandom, -, -, hmixed, -, hsorted, floats, -, -, hsprinkled⟩ :=
    patterns_rearrange_parts .stream 7 hfive
  obtain ⟨directions, saw, hdrawn, hdirections, hsaw, hpieces⟩ := hmixed 0 htwo
  have hpieces := hpieces.sorted
  obtain ⟨hstart, -⟩ := hsorted (50 : Rat)
  obtain ⟨-, hpast⟩ := hsorted (200 : Rat)
  obtain ⟨-, hbeyond⟩ := hsorted (.infinite false)
  rw [hhalf] at hstart
  rw [htwice] at hpast
  rw [hinfinite] at hbeyond
  rw [hitems, hdirections] at hpieces
  obtain ⟨sprinkled, hfloats, -⟩ := hsprinkled 50 (by norm_num) (by decide +kernel)
  exact ⟨hfive, htwo, hhalf, htwice, items, hitems, hrandom,
    ⟨directions, saw, hdrawn, hsaw, hpieces⟩, hstart (by decide), hpast (by decide),
    hbeyond (by decide), sprinkled, hfloats⟩

end VectorizedSort
