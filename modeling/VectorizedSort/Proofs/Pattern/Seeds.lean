import VectorizedSort.Pattern.Call

/-! # What the answers of pattern calls depend on

A call looks the seed of the process up before anything else, or it never touches the seeds. Once
the process has settled on a seed, looking it up changes nothing, so a call answers from its own
arguments and that seed: no other call, failed or not, has a part in it. A text that is not a number
fails the first call that looks the seed up, and every later one finds the seed lost. What is given
but cannot be decoded fails none: a process that is given it draws a seed of its own. -/

namespace VectorizedSort

variable {β γ : Type}

/-! ### Computations on seeds -/

/-- The answer of a computation and the seeds that it leaves. -/
def outcome (m : Making β) (seeds : Seeds) : Except PatternFault β × Seeds := m.run.run seeds

/-- A failure ends the computation, but what was learnt about the seeds stays. -/
theorem outcome_bind (m : Making β) (f : β → Making γ) (seeds : Seeds) :
    outcome (m >>= f) seeds =
      match outcome m seeds with
      | (.ok x, after) => outcome (f x) after
      | (.error fault, after) => (.error fault, after) := by
  have hbind : outcome (m >>= f) seeds =
      (ExceptT.bindCont f (outcome m seeds).1 : StateM Seeds (Except PatternFault γ))
        (outcome m seeds).2 := rfl
  rw [hbind]
  rcases outcome m seeds with ⟨_ | _, _⟩
  · rfl
  · rfl

/-- On seeds with the given property the computation always answers the same, and leaves the seeds
as they are. -/
def Settled (P : Seeds → Prop) (m : Making β) : Prop :=
  ∃ answer, ∀ seeds, P seeds → outcome m seeds = (answer, seeds)

namespace Settled

variable {P : Seeds → Prop}

theorem pure (x : β) : Settled P (Pure.pure x : Making β) := ⟨.ok x, fun _ _ => rfl⟩

theorem throw (fault : PatternFault) : Settled P (MonadExcept.throw fault : Making β) :=
  ⟨.error fault, fun _ _ => rfl⟩

theorem bind {m : Making β} {f : β → Making γ} (hm : Settled P m) (hf : ∀ x, Settled P (f x)) :
    Settled P (m >>= f) := by
  obtain ⟨answer, hanswer⟩ := hm
  cases answer with
  | error fault =>
    refine ⟨.error fault, fun seeds hseeds => ?_⟩
    rw [outcome_bind, hanswer seeds hseeds]
  | ok x =>
    obtain ⟨result, hresult⟩ := hf x
    refine ⟨result, fun seeds hseeds => ?_⟩
    rw [outcome_bind, hanswer seeds hseeds]
    exact hresult seeds hseeds

/-- A computation behind a check that may refuse to go on. -/
theorem check {c : Prop} [Decidable c] {fault : PatternFault} {f : Unit → Making β}
    (h : Settled P (f ())) : Settled P (if c then MonadExcept.throw fault >>= f else f ()) := by
  split
  · exact ⟨.error fault, fun _ _ => rfl⟩
  · exact h

end Settled

/-- The computation starts by looking the seed up. -/
def LooksUpSeed (m : Making β) : Prop := ∃ k : UInt64 → Making β, m = Seeds.current >>= k

namespace LooksUpSeed

theorem current : LooksUpSeed Seeds.current := ⟨pure, (bind_pure _).symm⟩

theorem bind {m : Making β} (h : LooksUpSeed m) (f : β → Making γ) : LooksUpSeed (m >>= f) := by
  obtain ⟨k, rfl⟩ := h
  exact ⟨fun seed => k seed >>= f, bind_assoc _ _ _⟩

variable {m : Making β} {seeds after : Seeds}

/-- A failed look-up fails the whole computation. -/
theorem outcome_of_error (h : LooksUpSeed m) {fault : PatternFault}
    (hcurrent : outcome Seeds.current seeds = (.error fault, after)) :
    outcome m seeds = (.error fault, after) := by
  obtain ⟨k, rfl⟩ := h
  rw [outcome_bind, hcurrent]

/-- If a look-up settles on the seed that it finds, the computation goes on as if it had been
settled before. -/
theorem outcome_of_ok (h : LooksUpSeed m) {seed : UInt64}
    (hcurrent : outcome Seeds.current seeds = (.ok seed, after))
    (hagain : outcome Seeds.current after = (.ok seed, after)) :
    outcome m seeds = outcome m after := by
  obtain ⟨k, rfl⟩ := h
  rw [outcome_bind, outcome_bind, hcurrent, hagain]

end LooksUpSeed

/-! ### Looking the seed up -/

namespace Seeds

variable {seeds : Seeds} {seed : UInt64}

/-- The process has settled on a seed, whether it was given or drawn. -/
def Has (seed : UInt64) (seeds : Seeds) : Prop := seeds.mode = .given seed ∨ seeds.mode = .kept seed

theorem outcome_get (seeds : Seeds) : outcome get seeds = (.ok seeds, seeds) := rfl

theorem outcome_current_of_has (h : seeds.Has seed) :
    outcome current seeds = (.ok seed, seeds) := by
  obtain ⟨given, entropy, drawn, mode⟩ := seeds
  rcases h with rfl | rfl
  · rfl
  · rfl

theorem settled_current (seed : UInt64) : Settled (Has seed) current :=
  ⟨.ok seed, fun _ h => outcome_current_of_has h⟩

theorem outcome_current_of_lost (h : seeds.mode = .lost) :
    outcome current seeds = (.error .seedLost, seeds) := by
  obtain ⟨given, entropy, drawn, mode⟩ := seeds
  cases h
  rfl

/-- The first look-up of a process reads the text that it was given. -/
theorem outcome_current_of_number {text : String} (entropy : Nat → UInt64)
    (h : parseSeed text = .ok seed) :
    outcome current (start (.text text) entropy) =
      (.ok seed, { start (.text text) entropy with mode := .given seed }) := by
  rw [current, outcome_bind, outcome_get]
  simp only [start]
  rw [outcome_bind, outcome_get]
  simp only [GivenSeed.text?, h]
  rfl

/-- A text that is no number fails the first look-up and loses the seed. -/
theorem outcome_current_of_no_number {text : String} {reason : SeedError} (entropy : Nat → UInt64)
    (h : parseSeed text = .error reason) :
    outcome current (start (.text text) entropy) =
      (.error (.seedInvalid reason), { start (.text text) entropy with mode := .lost }) := by
  rw [current, outcome_bind, outcome_get]
  simp only [start]
  rw [outcome_bind, outcome_get]
  simp only [GivenSeed.text?, h]
  rfl

/-- Without a text, the first look-up draws a seed and keeps it. -/
theorem outcome_current_of_no_text {given : GivenSeed} (entropy : Nat → UInt64)
    (h : given.text? = none) :
    outcome current (start given entropy) =
      (.ok (entropy 0), { start given entropy with drawn := 1, mode := .kept (entropy 0) }) := by
  cases given with
  | unset => rfl
  | undecodable => rfl
  | text value => cases h

theorem outcome_renewEachTime_of_given (h : seeds.mode = .given seed) :
    outcome renewEachTime seeds = (.error .seedFixed, seeds) := by
  obtain ⟨given, entropy, drawn, mode⟩ := seeds
  cases h
  rfl

theorem looksUpSeed_stateOf (sampler : Sampler) : LooksUpSeed (stateOf sampler) :=
  LooksUpSeed.current.bind _

end Seeds

/-! ### Patterns -/

namespace Pattern

section Settled

variable {P : Seeds → Prop}

theorem settled_checkLength (length : Nat) : Settled P (checkLength length) := by
  unfold checkLength
  split
  · exact .throw _
  · exact .pure _

theorem settled_allEqual (length : Nat) : Settled P (allEqual length) :=
  (settled_checkLength length).bind fun _ => .pure _

variable (h : Settled P Seeds.current) {sampler : Sampler}

include h

theorem settled_stateOf : Settled P (Seeds.stateOf sampler) := h.bind fun _ => .pure _

theorem settled_random (length : Nat) : Settled P (random sampler length) :=
  (settled_stateOf h).bind fun _ => (settled_checkLength length).bind fun _ => .pure _

theorem settled_randomWithin (length : Nat) (bounds : IntBounds) :
    Settled P (randomWithin sampler length bounds) :=
  (settled_stateOf h).bind fun _ => .check ((settled_checkLength length).bind fun _ => .pure _)

theorem settled_randomSorted (length : Nat) (percent : Percentage) :
    Settled P (randomSorted sampler length percent) :=
  (settled_random h length).bind fun _ => .check (.pure _)

theorem settled_saw (length teeth : Nat) (goesDown : Nat → Bool) :
    Settled P (saw sampler length teeth goesDown) := by
  unfold saw
  split
  · exact .pure _
  · exact (settled_random h length).bind fun _ => .pure _

theorem settled_sawMixed (length teeth : Nat) : Settled P (sawMixed sampler length teeth) := by
  unfold sawMixed
  exact .check ((settled_randomWithin h _ _).bind fun _ => settled_saw h length teeth _)

theorem settled_randomFloats (length : Nat) : Settled P (randomFloats sampler length) :=
  (settled_stateOf h).bind fun _ => (settled_checkLength length).bind fun _ => .pure _

theorem settled_randomEdgeFloats (length : Nat) : Settled P (randomEdgeFloats sampler length) :=
  (settled_stateOf h).bind fun _ => (settled_checkLength length).bind fun _ => .pure _

theorem settled_randomFloatsWithNaN (length : Nat) (percent : Percentage) :
    Settled P (randomFloatsWithNaN sampler length percent) := by
  refine (settled_stateOf h).bind fun _ => (settled_randomFloats h length).bind fun _ => ?_
  split
  · exact .pure _
  · cases percent.probability? with
    | some probability => exact .pure _
    | none => exact .throw _

end Settled

section LooksUp

variable {sampler : Sampler}

theorem looksUpSeed_random (length : Nat) : LooksUpSeed (random sampler length) :=
  (Seeds.looksUpSeed_stateOf sampler).bind _

theorem looksUpSeed_saw {length : Nat} (h : length ≠ 0) (teeth : Nat) (goesDown : Nat → Bool) :
    LooksUpSeed (saw sampler length teeth goesDown) := by
  rw [saw, if_neg h]
  exact (looksUpSeed_random length).bind _

theorem looksUpSeed_sawMixed (length : Nat) {teeth : Nat} (h : max 1 teeth + 1 < UInt64.size) :
    LooksUpSeed (sawMixed sampler length teeth) := by
  rw [sawMixed, if_neg (Nat.not_le.mpr h)]
  exact .bind ((Seeds.looksUpSeed_stateOf sampler).bind _) _

end LooksUp

end Pattern

/-! ### Single calls -/

namespace PatternCall

/-- Whether a call looks the seed up. The saws of length zero do not get that far, nor does a mixed
saw whose directions cannot be counted; in a build without overflow checks that one would. -/
def needsSeed : PatternCall → Bool
  | allEqual _ | ascending _ | descending _ | toFloats _ => false
  | sawAscending length _ | sawDescending length _ => decide (length ≠ 0)
  | sawMixed _ teeth => decide (max 1 teeth + 1 < UInt64.size)
  | random _ | randomWithin _ _ | randomSorted _ _ | pipeOrgan _ | randomFloats _
  | randomEdgeFloats _ | randomFloatsWithNaN _ _ | seed | renewSeedEachTime => true

variable (sampler : Sampler)

/-- The answer of a call in a process that was given the seed. -/
def answerWith (seed : UInt64) (call : PatternCall) : Except PatternFault PatternAnswer :=
  (outcome (call.runWith sampler) { Seeds.start .unset (fun _ => seed) with mode := .given seed }).1

variable {sampler}

theorem looksUpSeed_runWith {call : PatternCall} (h : call.needsSeed) :
    LooksUpSeed (call.runWith sampler) := by
  have hstate := Seeds.looksUpSeed_stateOf sampler
  cases call with
  | random length => exact (Pattern.looksUpSeed_random length).bind _
  | randomWithin length bounds => exact .bind (hstate.bind _) _
  | randomSorted length percent => exact .bind ((Pattern.looksUpSeed_random length).bind _) _
  | sawAscending length teeth =>
    exact (Pattern.looksUpSeed_saw (of_decide_eq_true h) teeth _).bind _
  | sawDescending length teeth =>
    exact (Pattern.looksUpSeed_saw (of_decide_eq_true h) teeth _).bind _
  | sawMixed length teeth =>
    exact (Pattern.looksUpSeed_sawMixed length (of_decide_eq_true h)).bind _
  | pipeOrgan length => exact (Pattern.looksUpSeed_random length).bind _
  | randomFloats length => exact .bind (hstate.bind _) _
  | randomEdgeFloats length => exact .bind (hstate.bind _) _
  | randomFloatsWithNaN length percent => exact .bind (hstate.bind _) _
  | seed => exact LooksUpSeed.current.bind _
  | renewSeedEachTime => exact .bind (LooksUpSeed.current.bind _) _
  | allEqual | ascending | descending | toFloats => cases h

theorem settled_runWith {P : Seeds → Prop} (h : Settled P Seeds.current) {call : PatternCall}
    (hcall : call ≠ renewSeedEachTime) : Settled P (call.runWith sampler) := by
  cases call with
  | random length => exact (Pattern.settled_random h length).bind fun _ => .pure _
  | randomWithin length bounds =>
    exact (Pattern.settled_randomWithin h length bounds).bind fun _ => .pure _
  | randomSorted length percent =>
    exact (Pattern.settled_randomSorted h length percent).bind fun _ => .pure _
  | allEqual length => exact (Pattern.settled_allEqual length).bind fun _ => .pure _
  | ascending | descending | toFloats => exact .pure _
  | sawAscending length teeth => exact (Pattern.settled_saw h length teeth _).bind fun _ => .pure _
  | sawDescending length teeth => exact (Pattern.settled_saw h length teeth _).bind fun _ => .pure _
  | sawMixed length teeth => exact (Pattern.settled_sawMixed h length teeth).bind fun _ => .pure _
  | pipeOrgan length => exact (Pattern.settled_random h length).bind fun _ => .pure _
  | randomFloats length => exact (Pattern.settled_randomFloats h length).bind fun _ => .pure _
  | randomEdgeFloats length =>
    exact (Pattern.settled_randomEdgeFloats h length).bind fun _ => .pure _
  | randomFloatsWithNaN length percent =>
    exact (Pattern.settled_randomFloatsWithNaN h length percent).bind fun _ => .pure _
  | seed => exact h.bind fun _ => .pure _
  | renewSeedEachTime => exact absurd rfl hcall

/-- A call that needs no seed answers the same on all seeds. -/
theorem settled_runWith_of_not_needsSeed {P : Seeds → Prop} {call : PatternCall}
    (h : call.needsSeed = false) : Settled P (call.runWith sampler) := by
  cases call with
  | allEqual length => exact (Pattern.settled_allEqual length).bind fun _ => .pure _
  | ascending | descending | toFloats => exact .pure _
  | sawAscending length teeth =>
    obtain rfl : length = 0 := Decidable.not_not.mp (of_decide_eq_false h)
    exact .bind (.pure _) fun _ => .pure _
  | sawDescending length teeth =>
    obtain rfl : length = 0 := Decidable.not_not.mp (of_decide_eq_false h)
    exact .bind (.pure _) fun _ => .pure _
  | sawMixed length teeth =>
    have hrefused : Settled P (Pattern.sawMixed sampler length teeth) := by
      rw [Pattern.sawMixed, if_pos (Nat.not_lt.mp (of_decide_eq_false h))]
      exact ⟨.error .countOverflow, fun _ _ => rfl⟩
    exact hrefused.bind fun _ => .pure _
  | random | randomWithin | randomSorted | pipeOrgan | randomFloats | randomEdgeFloats
  | randomFloatsWithNaN | seed | renewSeedEachTime => cases h

/-- The calls that need a seed are those that start by looking it up. -/
theorem needsSeed_iff (call : PatternCall) :
    call.needsSeed ↔ LooksUpSeed (call.runWith sampler) := by
  refine ⟨looksUpSeed_runWith, fun hlooks => ?_⟩
  cases hneeds : call.needsSeed with
  | true => rfl
  | false =>
    have hsettled : Settled (fun _ => True) (call.runWith sampler) :=
      settled_runWith_of_not_needsSeed hneeds
    obtain ⟨answer, hanswer⟩ := hsettled
    -- looking up a seed that is no number would be seen in the seeds
    have hempty : parseSeed "" = .error .empty := rfl
    have hlost := hlooks.outcome_of_error
      (Seeds.outcome_current_of_no_number (fun _ => 0) hempty)
    rw [hanswer _ trivial] at hlost
    cases hlost

section Answers

variable (seed : UInt64) {call : PatternCall} {seeds : Seeds}

/-- A call that needs no seed answers as it does everywhere. -/
theorem outcome_of_not_needsSeed (h : call.needsSeed = false) (seeds : Seeds) :
    outcome (call.runWith sampler) seeds = (call.answerWith sampler seed, seeds) := by
  obtain ⟨answer, hanswer⟩ := settled_runWith_of_not_needsSeed (P := fun _ => True) h
  rw [answerWith, hanswer _ trivial, hanswer _ trivial]

variable {seed}

/-- In a process that has settled on a seed, only the request for new seeds could do anything else
than answer with that seed. -/
theorem outcome_of_has (h : seeds.Has seed) (hcall : call ≠ renewSeedEachTime) :
    outcome (call.runWith sampler) seeds = (call.answerWith sampler seed, seeds) := by
  obtain ⟨answer, hanswer⟩ := settled_runWith (Seeds.settled_current seed) hcall
  have hgiven : Seeds.Has seed { Seeds.start .unset (fun _ => seed) with mode := .given seed } :=
    Or.inl rfl
  rw [answerWith, hanswer _ hgiven, hanswer _ h]

/-- In a process that was given the seed that request is refused. -/
theorem outcome_of_given (h : seeds.mode = .given seed) :
    outcome (call.runWith sampler) seeds = (call.answerWith sampler seed, seeds) := by
  by_cases hcall : call = renewSeedEachTime
  · subst hcall
    have hrefused (seeds : Seeds) (h : seeds.mode = .given seed) :
        outcome (renewSeedEachTime.runWith sampler) seeds = (.error .seedFixed, seeds) := by
      rw [runWith, outcome_bind, Seeds.outcome_renewEachTime_of_given h]
    rw [answerWith, hrefused _ h, hrefused { Seeds.start _ _ with mode := _ } rfl]
  · exact outcome_of_has (Or.inl h) hcall

end Answers

/-! ### Sequences of calls -/

theorem runAllWith_cons (seeds : Seeds) (call : PatternCall) (calls : List PatternCall) :
    runAllWith sampler seeds (call :: calls) =
      ((outcome (call.runWith sampler) seeds).1 ::
          (runAllWith sampler (outcome (call.runWith sampler) seeds).2 calls).1,
        (runAllWith sampler (outcome (call.runWith sampler) seeds).2 calls).2) := rfl

theorem runAllWith_append (seeds : Seeds) (calls later : List PatternCall) :
    runAllWith sampler seeds (calls ++ later) =
      ((runAllWith sampler seeds calls).1 ++
          (runAllWith sampler (runAllWith sampler seeds calls).2 later).1,
        (runAllWith sampler (runAllWith sampler seeds calls).2 later).2) := by
  induction calls generalizing seeds with
  | nil => rfl
  | cons call calls ih =>
    rw [List.cons_append, runAllWith_cons, runAllWith_cons, ih, List.cons_append]

section Runs

variable {seeds after : Seeds} {answer : PatternCall → Except PatternFault PatternAnswer}
  {calls : List PatternCall}

/-- Calls that change nothing answer one by one. -/
theorem runAllWith_of_unchanged
    (h : ∀ call ∈ calls, outcome (call.runWith sampler) seeds = (answer call, seeds)) :
    runAllWith sampler seeds calls = (calls.map answer, seeds) := by
  induction calls with
  | nil => rfl
  | cons call calls ih =>
    rw [runAllWith_cons, h call List.mem_cons_self,
      ih fun c hc => h c (List.mem_cons_of_mem call hc), List.map_cons]

/-- If the first call that needs a seed settles the process on one, all calls answer as if it had
been settled from the start. -/
theorem runAllWith_of_settling
    (hfree : ∀ call ∈ calls, call.needsSeed = false →
      outcome (call.runWith sampler) seeds = (answer call, seeds))
    (hfirst : ∀ call ∈ calls, call.needsSeed →
      outcome (call.runWith sampler) seeds = (answer call, after))
    (hlater : ∀ call ∈ calls, outcome (call.runWith sampler) after = (answer call, after)) :
    runAllWith sampler seeds calls =
      (calls.map answer, if calls.any needsSeed then after else seeds) := by
  induction calls with
  | nil => rfl
  | cons call calls ih =>
    rw [runAllWith_cons, List.map_cons, List.any_cons]
    have hrest {c : PatternCall} (hc : c ∈ calls) : c ∈ call :: calls :=
      List.mem_cons_of_mem call hc
    by_cases hneeds : call.needsSeed
    · rw [hfirst call List.mem_cons_self hneeds,
        runAllWith_of_unchanged fun c hc => hlater c (hrest hc), hneeds, Bool.true_or, if_pos rfl]
    · rw [Bool.not_eq_true] at hneeds
      rw [hfree call List.mem_cons_self hneeds, hneeds, Bool.false_or,
        ih (fun c hc => hfree c (hrest hc)) (fun c hc => hfirst c (hrest hc))
          (fun c hc => hlater c (hrest hc))]

end Runs

variable (entropy : Nat → UInt64)

/-- In a process that is given a number, the first call that needs a seed reads it. -/
theorem outcome_of_number {text : String} {seed : UInt64} (h : parseSeed text = .ok seed)
    {call : PatternCall} (hneeds : call.needsSeed) :
    let process := Seeds.start (.text text) entropy
    outcome (call.runWith sampler) process =
      (call.answerWith sampler seed, { process with mode := .given seed }) := by
  intro process
  rw [(looksUpSeed_runWith hneeds).outcome_of_ok (Seeds.outcome_current_of_number entropy h)
    (Seeds.outcome_current_of_has (Or.inl rfl))]
  exact outcome_of_given rfl

/-- Every call answers with that number then, and reading it is all that ever happens to the
seeds. -/
theorem runAllWith_of_number {text : String} {seed : UInt64} (h : parseSeed text = .ok seed)
    (calls : List PatternCall) :
    let process := Seeds.start (.text text) entropy
    runAllWith sampler process calls =
      (calls.map (·.answerWith sampler seed),
        if calls.any needsSeed then { process with mode := .given seed } else process) := by
  intro process
  exact runAllWith_of_settling (fun call _ hfree => outcome_of_not_needsSeed seed hfree _)
    (fun call _ hneeds => outcome_of_number entropy h hneeds) fun call _ => outcome_of_given rfl

/-- Without a text from outside the calls before the first request for new seeds answer with one
seed, the first one drawn. -/
theorem runAllWith_of_no_text {given : GivenSeed} (hgiven : given.text? = none)
    {calls : List PatternCall} (h : renewSeedEachTime ∉ calls) :
    let process := Seeds.start given entropy
    runAllWith sampler process calls =
      (calls.map (·.answerWith sampler (entropy 0)),
        if calls.any needsSeed then { process with drawn := 1, mode := .kept (entropy 0) }
        else process) := by
  intro process
  have hcall (call : PatternCall) (hmem : call ∈ calls) : call ≠ renewSeedEachTime :=
    fun heq => h (heq ▸ hmem)
  refine runAllWith_of_settling (fun call _ hfree => outcome_of_not_needsSeed _ hfree _)
    (fun call hmem hneeds => ?_) fun call hmem => outcome_of_has (Or.inr rfl) (hcall call hmem)
  rw [(looksUpSeed_runWith hneeds).outcome_of_ok (Seeds.outcome_current_of_no_text entropy hgiven)
    (Seeds.outcome_current_of_has (Or.inr rfl))]
  exact outcome_of_has (Or.inr rfl) (hcall call hmem)

section NoNumber

variable {text : String} {reason : SeedError} (h : parseSeed text = .error reason) (seed : UInt64)

/-- A text that is no number does not matter as long as no call needs a seed. -/
theorem runAllWith_of_not_needsSeed (seeds : Seeds) {calls : List PatternCall}
    (hfree : ∀ call ∈ calls, call.needsSeed = false) :
    runAllWith sampler seeds calls = (calls.map (·.answerWith sampler seed), seeds) :=
  runAllWith_of_unchanged fun call hmem => outcome_of_not_needsSeed seed (hfree call hmem) seeds

include h

/-- The first call that needs a seed reports the text, the later ones find the seed lost. -/
theorem runAllWith_of_no_number {before after : List PatternCall} {call : PatternCall}
    (hfree : ∀ c ∈ before, c.needsSeed = false) (hneeds : call.needsSeed) :
    (runAllWith sampler (Seeds.start (.text text) entropy) (before ++ call :: after)).1 =
      before.map (·.answerWith sampler seed) ++ .error (.seedInvalid reason) ::
        after.map fun c => if c.needsSeed then .error .seedLost else c.answerWith sampler seed := by
  have hlater (c : PatternCall) :
      outcome (c.runWith sampler) { Seeds.start (.text text) entropy with mode := .lost } =
        (if c.needsSeed then .error .seedLost else c.answerWith sampler seed,
          { Seeds.start (.text text) entropy with mode := .lost }) := by
    split
    · rename_i hc
      exact (looksUpSeed_runWith hc).outcome_of_error (Seeds.outcome_current_of_lost rfl)
    · rename_i hc
      exact outcome_of_not_needsSeed seed (eq_false_of_ne_true hc) _
  rw [runAllWith_append, runAllWith_of_not_needsSeed seed _ hfree, runAllWith_cons,
    (looksUpSeed_runWith hneeds).outcome_of_error (Seeds.outcome_current_of_no_number entropy h),
    runAllWith_of_unchanged fun c _ => hlater c]

end NoNumber

end PatternCall

open PatternCall in
/-- With every sampler, the calls that look the seed up before anything else are those that need one.
In a process that is given a number, every call answers from its own arguments and that number alone,
whatever other calls are made before and after it and whether or not they fail, and a request for new
seeds is refused: like any other look-up it can do no more than read the number. In a process that is
given a text that is no number, the first call that needs a seed reports the text and every later one
finds the seed lost, while the others answer as they do in every process. In a process that is given
no text, be it nothing or bytes that cannot be decoded, all calls before the first request for new
seeds answer from one seed, the first one that is drawn. -/
theorem seed_decides_answers (sampler : Sampler) (entropy : Nat → UInt64) :
    (∀ call : PatternCall, call.needsSeed ↔ LooksUpSeed (call.runWith sampler)) ∧
    (∀ s : UInt64, seed.answerWith sampler s = .ok (.seed s) ∧
      renewSeedEachTime.answerWith sampler s = .error .seedFixed) ∧
    (∀ (text : String) (s : UInt64), parseSeed text = .ok s →
      let process := Seeds.start (.text text) entropy
      ∀ calls : List PatternCall,
        runAllWith sampler process calls = (calls.map (·.answerWith sampler s),
          if calls.any needsSeed then { process with mode := .given s } else process) ∧
        outcome (renewSeedEachTime.runWith sampler) (runAllWith sampler process calls).2 =
          (.error .seedFixed, { process with mode := .given s })) ∧
    (∀ (text : String) (reason : SeedError), parseSeed text = .error reason →
      let process := Seeds.start (.text text) entropy
      ∀ s : UInt64,
        (∀ calls : List PatternCall, (∀ call ∈ calls, call.needsSeed = false) →
          runAllWith sampler process calls = (calls.map (·.answerWith sampler s), process)) ∧
        ∀ (before : List PatternCall) (call : PatternCall) (after : List PatternCall),
          (∀ c ∈ before, c.needsSeed = false) → call.needsSeed →
            (runAllWith sampler process (before ++ call :: after)).1 =
              before.map (·.answerWith sampler s) ++ .error (.seedInvalid reason) ::
                after.map fun c =>
                  if c.needsSeed then .error .seedLost else c.answerWith sampler s) ∧
    ∀ given : GivenSeed, given.text? = none →
      ∀ before after : List PatternCall, renewSeedEachTime ∉ before →
        before.map (·.answerWith sampler (entropy 0)) <+:
          (runAllWith sampler (Seeds.start given entropy) (before ++ after)).1 := by
  refine ⟨needsSeed_iff, fun s => ⟨rfl, rfl⟩, ?_, ?_, ?_⟩
  · intro text s h process calls
    have hall : runAllWith sampler process calls = (calls.map (·.answerWith sampler s),
        if calls.any needsSeed then { process with mode := .given s } else process) :=
      runAllWith_of_number entropy h calls
    refine ⟨hall, ?_⟩
    rw [hall]
    split
    · exact outcome_of_given rfl
    · exact outcome_of_number entropy h rfl
  · intro text reason h process s
    exact ⟨fun calls hfree => runAllWith_of_not_needsSeed s process hfree,
      fun before call after hfree hneeds => runAllWith_of_no_number entropy h s hfree hneeds⟩
  · intro given hgiven before after hbefore
    rw [runAllWith_append, runAllWith_of_no_text entropy hgiven hbefore]
    exact List.prefix_append _ _

/-- A number, a text that is no number, no text at all and what cannot be decoded, each with a request
for new seeds. -/
theorem seed_decides_answers_of_renewing :
    let entropy := fun n => UInt64.ofNat (n + 5)
    parseSeed "17" = .ok 17 ∧ parseSeed "1x" = .error .invalidDigit ∧
      GivenSeed.unset.text? = none ∧ GivenSeed.undecodable.text? = none ∧
      (PatternCall.runAll (Seeds.start (.text "17") entropy) [.renewSeedEachTime, .seed]).1 =
        [.error .seedFixed, .ok (.seed 17)] ∧
      (PatternCall.runAll (Seeds.start (.text "1x") entropy)
          [.sawAscending 0 3, .renewSeedEachTime, .toFloats [], .seed]).1 =
        [.ok (.integers []), .error (.seedInvalid .invalidDigit), .ok (.floats []),
          .error .seedLost] ∧
      [.ok (.seed 5), .ok (.seed 5)] <+:
        (PatternCall.runAll (Seeds.start .unset entropy)
          [.seed, .seed, .renewSeedEachTime, .seed]).1 ∧
      [.ok (.seed 5), .ok (.seed 5)] <+:
        (PatternCall.runAll (Seeds.start .undecodable entropy)
          [.seed, .seed, .renewSeedEachTime, .seed]).1 := by
  intro entropy
  have hnumber : parseSeed "17" = .ok 17 := rfl
  have hnone : parseSeed "1x" = .error .invalidDigit := rfl
  obtain ⟨-, -, hgiven, hlost, hdrawn⟩ := seed_decides_answers .stream entropy
  refine ⟨hnumber, hnone, rfl, rfl, ?_, ?_, ?_, ?_⟩
  · exact congrArg Prod.fst (hgiven "17" 17 hnumber [.renewSeedEachTime, .seed]).1
  · exact (hlost "1x" _ hnone 0).2 [.sawAscending 0 3] .renewSeedEachTime [.toFloats [], .seed]
      (by simp [PatternCall.needsSeed]) rfl
  · exact hdrawn .unset rfl [.seed, .seed] [.renewSeedEachTime, .seed] (by simp)
  · exact hdrawn .undecodable rfl [.seed, .seed] [.renewSeedEachTime, .seed] (by simp)

/-- Something is given that is the text of no number. -/
def GivenSeed.IsNoNumber (given : GivenSeed) : Prop :=
  given ≠ .unset ∧ ∀ text, given = .text text → ∃ reason, parseSeed text = .error reason

open PatternCall in
/-- Not everything that is given and is no number is reported. What cannot be decoded is passed over,
and the first call that needs a seed draws one. Nor does every call answer that needs no seed: a mixed
saw with the largest number of teeth fails before it gets to the seed. -/
theorem given_no_number_unreported :
    let process := fun given => Seeds.start given fun n => UInt64.ofNat (n + 5)
    let widest := sawMixed 0 0xffffffffffffffff
    GivenSeed.undecodable.IsNoNumber ∧ (GivenSeed.text "x").IsNoNumber ∧
      (runAll (process .undecodable) [.seed, .seed]).1 = [.ok (.seed 5), .ok (.seed 5)] ∧
      (runAll (process (.text "x")) [widest, .seed]).1 =
        [.error .countOverflow, .error (.seedInvalid .invalidDigit)] ∧
      (¬ ∀ given, given.IsNoNumber → ∀ call : PatternCall, call.needsSeed →
        ∃ reason, (runAll (process given) [call]).1 = [.error (.seedInvalid reason)]) ∧
      ¬ ∀ given, given.IsNoNumber → ∀ call : PatternCall, call.needsSeed = false →
        ∃ answer, (runAll (process given) [call]).1 = [.ok answer] := by
  intro process widest
  have hundecodable : GivenSeed.undecodable.IsNoNumber :=
    ⟨GivenSeed.noConfusion, fun _ => GivenSeed.noConfusion⟩
  have htext : (GivenSeed.text "x").IsNoNumber := by
    refine ⟨GivenSeed.noConfusion, fun text heq => ?_⟩
    cases heq
    exact ⟨.invalidDigit, rfl⟩
  refine ⟨hundecodable, htext, rfl, rfl, fun hreported => ?_, fun hanswers => ?_⟩
  · obtain ⟨reason, hseed⟩ := hreported .undecodable hundecodable .seed rfl
    cases hseed
  · obtain ⟨answer, hsaw⟩ := hanswers (.text "x") htext widest rfl
    cases hsaw

end VectorizedSort
