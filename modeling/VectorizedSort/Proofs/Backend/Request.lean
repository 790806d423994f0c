import Mathlib.Data.List.DropRight
import Mathlib.Data.List.Forall2
import VectorizedSort.Entry.Typed

/-! # Requests that are followed

A text names a backend if, between blanks, it spells the name with each letter in one of its two
cases. A request is followed if it names a backend that the processor can execute. Otherwise the
process takes the fastest backend, and it warns if there was a request at all. -/

namespace VectorizedSort

/-! ### Blanks -/

section Blanks

variable {front back text : List Char}

/-- Blanks at the two ends of a text do not count. -/
theorem trimBlanks_append (hfront : ∀ c ∈ front, isBlank c) (hback : ∀ c ∈ back, isBlank c)
    (text : List Char) : trimBlanks (front ++ text ++ back) = trimBlanks text := by
  have hreverse : ∀ c ∈ back.reverse, isBlank c := fun c hc => hback c (List.mem_reverse.mp hc)
  rw [trimBlanks, trimBlanks, List.append_assoc, List.dropWhile_append_of_pos hfront,
    List.dropWhile_append]
  split
  · rename_i hempty
    rw [List.dropWhile_eq_nil_iff.mpr hback, List.isEmpty_iff.mp hempty]
  · rw [List.reverse_append, List.dropWhile_append_of_pos hreverse]

theorem trimBlanks_of_no_blank (h : ∀ c ∈ text, ¬ isBlank c) : trimBlanks text = text := by
  have hfirst : text.dropWhile isBlank = text :=
    List.dropWhile_eq_self_iff.mpr fun hpos => h _ (List.getElem_mem hpos)
  have hlast : text.rdropWhile isBlank = text :=
    List.rdropWhile_eq_self_iff.mpr fun hne => h _ (List.getLast_mem hne)
  rw [trimBlanks, hfirst]
  exact hlast

/-- All that is cut off a text is blank. -/
theorem exists_padding (text : List Char) :
    ∃ front back : List Char, text = front ++ trimBlanks text ++ back ∧
      (∀ c ∈ front, isBlank c) ∧ ∀ c ∈ back, isBlank c := by
  refine ⟨text.takeWhile isBlank, (text.dropWhile isBlank).rtakeWhile isBlank, ?_,
    fun c => List.mem_takeWhile_imp, fun c => List.mem_rtakeWhile_imp⟩
  have hback : trimBlanks text ++ (text.dropWhile isBlank).rtakeWhile isBlank =
      text.dropWhile isBlank := List.rdropWhile_append_rtakeWhile
  rw [List.append_assoc, hback, List.takeWhile_append_dropWhile]

end Blanks

/-! ### Cases -/

section Cases

variable {c letter : Char}

theorem toNat_toLower (c : Char) :
    c.toLower.toNat = if 65 ≤ c.toNat ∧ c.toNat ≤ 90 then c.toNat + 32 else c.toNat := by
  have hle : c.val ≥ 'A'.val ↔ 65 ≤ c.toNat := UInt32.le_iff_toNat_le
  have hge : c.val ≤ 'Z'.val ↔ c.toNat ≤ 90 := UInt32.le_iff_toNat_le
  delta Char.toLower
  simp only [hle, hge]
  split
  · have hsum : (c.val + ('a'.val - 'A'.val)).toNat = (c.toNat + 32) % 2 ^ 32 :=
      UInt32.toNat_add _ _
    have hsmall : c.toNat + 32 < 2 ^ 32 := by omega
    exact hsum.trans (Nat.mod_eq_of_lt hsmall)
  · rfl

theorem toNat_toUpper (c : Char) :
    c.toUpper.toNat = if 97 ≤ c.toNat ∧ c.toNat ≤ 122 then c.toNat - 32 else c.toNat := by
  have hle : 'a'.val ≤ c.val ↔ 97 ≤ c.toNat := UInt32.le_iff_toNat_le
  have hge : c.val ≤ 'z'.val ↔ c.toNat ≤ 122 := UInt32.le_iff_toNat_le
  delta Char.toUpper
  simp only [hle, hge]
  split
  · have hsum : (c.val + ('A'.val - 'a'.val)).toNat = (c.toNat + (2 ^ 32 - 32)) % 2 ^ 32 :=
      UInt32.toNat_add _ _
    exact hsum.trans (by omega)
  · rfl

/-- The characters with a given lower case are that one and its upper case. -/
theorem toLower_eq_iff (hletter : letter.toLower = letter) :
    c.toLower = letter ↔ c = letter ∨ c = letter.toUpper := by
  rw [← Char.toNat_inj, toNat_toLower] at hletter
  rw [← Char.toNat_inj, ← Char.toNat_inj, ← Char.toNat_inj, toNat_toLower, toNat_toUpper]
  split at hletter <;> split <;> split <;> omega

/-- Blanks have no case. -/
theorem toLower_of_isBlank (h : isBlank c) : c.toLower = c := by
  have hcapital : ¬ (65 ≤ c.toNat ∧ c.toNat ≤ 90) := by
    simp only [isBlank, blankRanges, List.any_cons, List.any_nil, Bool.or_eq_true,
      Bool.and_eq_true, decide_eq_true_eq, Bool.false_eq_true, or_false] at h
    omega
  rw [← Char.toNat_inj, toNat_toLower, if_neg hcapital]

end Cases

/-! ### Naming a backend -/

/-- The text is the name, each character in one of its two cases. -/
def Spells (text name : List Char) : Prop :=
  List.Forall₂ (fun c letter => c = letter ∨ c = letter.toUpper) text name

/-- The text is a spelling of the name of the backend between blanks. -/
def Names (text : String) (backend : Backend) : Prop :=
  ∃ front spelling back : List Char, text.toList = front ++ spelling ++ back ∧
    (∀ c ∈ front, isBlank c) ∧ Spells spelling backend.name.toList ∧ ∀ c ∈ back, isBlank c

/-- The spellings of a name in lower case are the texts with that lower case. -/
theorem spells_iff {text name : List Char} (hname : ∀ letter ∈ name, letter.toLower = letter) :
    Spells text name ↔ text.map Char.toLower = name := by
  induction name generalizing text with
  | nil => rw [Spells, List.forall₂_nil_right_iff, List.map_eq_nil_iff]
  | cons letter name ih =>
    cases text with
    | nil => simp [Spells]
    | cons c text =>
      have hrest : Spells text name ↔ text.map Char.toLower = name :=
        ih fun other hother => hname other (List.mem_cons_of_mem _ hother)
      rw [List.map_cons, List.cons.injEq, ← hrest, toLower_eq_iff (hname _ List.mem_cons_self)]
      exact List.forall₂_cons

namespace Backend

variable {text : String} {backend : Backend}

/-- Names are written in lower case and without blanks. -/
theorem name_plain (backend : Backend) :
    ∀ c ∈ backend.name.toList, c.toLower = c ∧ ¬ isBlank c := by
  -- over the list and not over all characters, so that it can be evaluated
  have hall : backend.name.toList.all (fun c => c.toLower == c && !isBlank c) := by
    cases backend with
    | portable => decide
    | avx2 => decide
  intro c hc
  simpa using List.all_eq_true.mp hall c hc

theorem spells_name_iff {spelling : List Char} :
    Spells spelling backend.name.toList ↔ spelling.map Char.toLower = backend.name.toList :=
  spells_iff fun c hc => (backend.name_plain c hc).1

/-- Nothing is cut off the spelling of a name. -/
theorem trimBlanks_of_spells {spelling : List Char} (h : Spells spelling backend.name.toList) :
    trimBlanks spelling = spelling := by
  refine trimBlanks_of_no_blank fun c hc hblank => ?_
  have hmem : c.toLower ∈ backend.name.toList :=
    spells_name_iff.mp h ▸ List.mem_map_of_mem hc
  rw [toLower_of_isBlank hblank] at hmem
  exact (backend.name_plain c hmem).2 hblank

/-- A text names a backend if it is a spelling of its name once the blanks are off. -/
theorem names_iff_trimBlanks :
    Names text backend ↔ (trimBlanks text.toList).map Char.toLower = backend.name.toList := by
  constructor
  · rintro ⟨front, spelling, back, htext, hfront, hspelling, hback⟩
    rw [htext, trimBlanks_append hfront hback, trimBlanks_of_spells hspelling]
    exact spells_name_iff.mp hspelling
  · intro h
    obtain ⟨front, back, htext, hfront, hback⟩ := exists_padding text.toList
    exact ⟨front, trimBlanks text.toList, back, htext, hfront, spells_name_iff.mpr h, hback⟩

/-- A text is read as one of the backends or refused as it was given. -/
theorem parse_eq_ok_or_error (text : String) :
    (∃ backend, parse text = .ok backend) ∨ parse text = .error ⟨text⟩ := by
  rw [parse]
  split
  · exact Or.inl ⟨.portable, rfl⟩
  · split
    · exact Or.inl ⟨.avx2, rfl⟩
    · exact Or.inr rfl

/-- What is read from a text is the backend that it names. -/
theorem parse_eq_ok_iff : parse text = .ok backend ↔ Names text backend := by
  rw [names_iff_trimBlanks, parse]
  split
  · rename_i hportable
    cases backend <;> simp [hportable, name]
  · rename_i hportable
    split
    · rename_i havx2
      cases backend <;> simp [havx2, name]
    · rename_i havx2
      cases backend <;> simp [hportable, havx2]

/-- Every text that names no backend is refused as it was given. -/
theorem parse_eq_error_iff {error : UnknownBackend} :
    parse text = .error error ↔ error = ⟨text⟩ ∧ ∀ backend, ¬ Names text backend := by
  simp only [← parse_eq_ok_iff]
  obtain ⟨backend, hok⟩ | herror := parse_eq_ok_or_error text
  · simp [hok]
  · simp [herror, eq_comm]

/-- A backend is named by its own name. -/
theorem names_name (backend : Backend) : Names backend.name backend :=
  ⟨[], backend.name.toList, [], by simp, by simp, List.forall₂_same.mpr fun _ _ => Or.inl rfl,
    by simp⟩

end Backend

/-- A text names at most one backend. -/
theorem Names.unique {text : String} {a b : Backend} (ha : Names text a) (hb : Names text b) :
    a = b := by
  rw [← Backend.parse_eq_ok_iff] at ha hb
  exact Except.ok.inj (ha.symm.trans hb)

/-! ### Following a request -/

namespace Cpu

variable {cpu : Cpu} {request : Option String} {backend : Backend} {text : String}

/-- The request names a backend that the processor can execute. -/
def CanFollow (cpu : Cpu) (request : Option String) (backend : Backend) : Prop :=
  ∃ text, request = some text ∧ Names text backend ∧ cpu.supports backend

/-- Why a text is no request that the processor can follow. -/
inductive Refuses (cpu : Cpu) (text : String) : Refusal → Prop where
  | unknown (h : ∀ backend, ¬ Names text backend) : Refuses cpu text (.unknown ⟨text⟩)
  | unsupported {backend : Backend} (hnames : Names text backend) (h : ¬ cpu.supports backend) :
    Refuses cpu text (.unsupported backend)

theorem choose_of_names (h : Names text backend) :
    cpu.choose (some text) =
      if cpu.supports backend then ⟨backend, none⟩
      else ⟨cpu.fastest, some (.unsupported backend)⟩ := by
  rw [choose, Backend.parse_eq_ok_iff.mpr h]

theorem choose_of_not_names (h : ∀ backend, ¬ Names text backend) :
    cpu.choose (some text) = ⟨cpu.fastest, some (.unknown ⟨text⟩)⟩ := by
  rw [choose, Backend.parse_eq_error_iff.mpr ⟨rfl, h⟩]

/-- A request that can be followed is followed without a word. -/
theorem choose_of_canFollow (h : cpu.CanFollow request backend) :
    cpu.choose request = ⟨backend, none⟩ := by
  obtain ⟨text, rfl, hnames, hsupports⟩ := h
  rw [choose_of_names hnames, if_pos hsupports]

/-- Any other request is refused for a reason. -/
theorem choose_of_not_canFollow (h : ∀ backend, ¬ cpu.CanFollow (some text) backend) :
    ∃ refusal, cpu.Refuses text refusal ∧
      cpu.choose (some text) = ⟨cpu.fastest, some refusal⟩ := by
  by_cases hnames : ∃ backend, Names text backend
  · obtain ⟨backend, hbackend⟩ := hnames
    have hunsupported : ¬ cpu.supports backend := fun hsupports =>
      h backend ⟨text, rfl, hbackend, hsupports⟩
    refine ⟨.unsupported backend, .unsupported hbackend hunsupported, ?_⟩
    rw [choose_of_names hbackend, if_neg hunsupported]
  · have hunknown : ∀ backend, ¬ Names text backend := not_exists.mp hnames
    exact ⟨.unknown ⟨text⟩, .unknown hunknown, choose_of_not_names hunknown⟩

/-- There is at most one reason to refuse a text. -/
theorem Refuses.unique {a b : Refusal} (ha : cpu.Refuses text a) (hb : cpu.Refuses text b) :
    a = b := by
  cases ha with
  | unknown hnone =>
    cases hb with
    | unknown => rfl
    | unsupported hnames => exact absurd hnames (hnone _)
  | unsupported hnames =>
    cases hb with
    | unknown hnone => exact absurd hnames (hnone _)
    | unsupported hnames' => rw [hnames.unique hnames']

/-- A text is refused for no reason if it can be followed. -/
theorem Refuses.not_canFollow {refusal : Refusal} (h : cpu.Refuses text refusal) :
    ¬ cpu.CanFollow (some text) backend := by
  rintro ⟨_, ⟨⟩, hnames, hsupports⟩
  cases h with
  | unknown hnone => exact hnone backend hnames
  | unsupported hnames' hunsupported => exact hunsupported (hnames'.unique hnames ▸ hsupports)

/-- The refusal that a choice reports. -/
theorem choose_refusal_eq_some_iff {refusal : Refusal} :
    (cpu.choose request).refusal = some refusal ↔
      ∃ text, request = some text ∧ cpu.Refuses text refusal := by
  cases request with
  | none => simp [choose]
  | some text =>
    by_cases h : ∃ backend, cpu.CanFollow (some text) backend
    · obtain ⟨backend, hbackend⟩ := h
      rw [choose_of_canFollow hbackend]
      refine iff_of_false (by simp) ?_
      rintro ⟨_, ⟨⟩, hrefuses⟩
      exact hrefuses.not_canFollow hbackend
    · obtain ⟨reason, hreason, hchoose⟩ := choose_of_not_canFollow (not_exists.mp h)
      rw [hchoose, Option.some.injEq]
      constructor
      · rintro rfl
        exact ⟨text, rfl, hreason⟩
      · rintro ⟨_, ⟨⟩, hrefuses⟩
        exact hreason.unique hrefuses

/-- What is not followed ends in the fastest backend. -/
theorem choose_backend_of_not_canFollow (h : ∀ backend, ¬ cpu.CanFollow request backend) :
    (cpu.choose request).backend = cpu.fastest := by
  cases request with
  | none => rfl
  | some text =>
    obtain ⟨reason, -, hchoose⟩ := choose_of_not_canFollow h
    rw [hchoose]

/-- The chosen backend can always be executed. -/
theorem supports_choose (cpu : Cpu) (request : Option String) :
    cpu.supports (cpu.choose request).backend := by
  by_cases h : ∃ backend, cpu.CanFollow request backend
  · obtain ⟨backend, hbackend⟩ := h
    rw [choose_of_canFollow hbackend]
    obtain ⟨text, -, -, hsupports⟩ := hbackend
    exact hsupports
  · rw [choose_backend_of_not_canFollow (not_exists.mp h)]
    exact cpu.supports_fastest

end Cpu

/-- The warnings of a process that selects its backend are the refusal of its request. -/
theorem Host.warnings_start (cpu : Cpu) (request : Option String) :
    (Host.start cpu request).log.filter (fun record => record.severity = .warn) =
      ((cpu.choose request).refusal.map fun refusal =>
        Record.requestRefused refusal (cpu.choose request).backend).toList := by
  rw [Host.start]
  cases (cpu.choose request).refusal with
  | none => rfl
  | some refusal => rfl

/-- A text is read as a backend exactly if it spells its name, in whatever cases, between blanks,
and every other text is refused as it was given. Under every request and on every processor a
backend is selected that the processor can execute: the one that the request names if it is such a
one, and the fastest one otherwise. There is a warning exactly if a request is given that names no
backend or one that the processor cannot execute. -/
theorem requests_followed_if_possible :
    (∀ text backend, Backend.parse text = .ok backend ↔ Names text backend) ∧
    (∀ text error, Backend.parse text = .error error ↔
      error = ⟨text⟩ ∧ ∀ backend, ¬ Names text backend) ∧
    (∀ backend : Backend, Backend.parse backend.name = .ok backend) ∧
    ∀ (cpu : Cpu) (request : Option String),
      let choice := cpu.choose request
      cpu.supports choice.backend ∧
      (∀ backend, cpu.CanFollow request backend → choice.backend = backend) ∧
      ((∀ backend, ¬ cpu.CanFollow request backend) → choice.backend = cpu.fastest) ∧
      (∀ refusal, choice.refusal = some refusal ↔
        ∃ text, request = some text ∧ cpu.Refuses text refusal) ∧
      (Host.start cpu request).log.filter (fun record => record.severity = .warn) =
        (choice.refusal.map fun refusal => .requestRefused refusal choice.backend).toList := by
  refine ⟨fun _ _ => Backend.parse_eq_ok_iff, fun _ _ => Backend.parse_eq_error_iff,
    fun backend => Backend.parse_eq_ok_iff.mpr backend.names_name, fun cpu request => ?_⟩
  refine ⟨cpu.supports_choose request, fun backend h => ?_, Cpu.choose_backend_of_not_canFollow,
    fun _ => Cpu.choose_refusal_eq_some_iff, Host.warnings_start cpu request⟩
  rw [Cpu.choose_of_canFollow h]

/-- On a processor without 256-bit vectors: a padded request in mixed case is followed, one for the
vectors is not, and neither is one with a blank inside of the name. -/
theorem requests_followed_if_possible_of_padded :
    let cpu : Cpu := ⟨false⟩
    (cpu.choose (some "\u3000PortABLE\n")).backend = .portable ∧
      (cpu.choose (some " aVX2")).backend = cpu.fastest ∧
      (cpu.choose (some " aVX2")).refusal = some (.unsupported .avx2) ∧
      Backend.parse "avx 2" = .error ⟨"avx 2"⟩ := by
  intro cpu
  obtain ⟨hnames, herror, -, hchoose⟩ := requests_followed_if_possible
  have hportable : Names "\u3000PortABLE\n" .portable := (hnames _ _).mp (by decide)
  have havx2 : Names " aVX2" .avx2 := (hnames _ _).mp (by decide)
  obtain ⟨-, hfollow, -, -, -⟩ := hchoose cpu (some "\u3000PortABLE\n")
  obtain ⟨-, -, hfastest, hrefusal, -⟩ := hchoose cpu (some " aVX2")
  refine ⟨hfollow .portable ⟨_, rfl, hportable, rfl⟩, hfastest ?_, (hrefusal _).mpr ?_,
    (herror _ _).mpr ⟨rfl, ?_⟩⟩
  · rintro backend ⟨_, ⟨⟩, hbackend, hsupports⟩
    cases hbackend.unique havx2
    cases hsupports
  · exact ⟨_, rfl, .unsupported havx2 (by decide)⟩
  · intro backend hbackend
    cases backend with
    | portable => exact absurd ((hnames _ _).mpr hbackend) (by decide)
    | avx2 => exact absurd ((hnames _ _).mpr hbackend) (by decide)

end VectorizedSort
