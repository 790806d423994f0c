import Mathlib.Order.Interval.Finset.Nat
import VectorizedSort.Proofs.Partition.Range

/-! # The slots that a partition reads and writes

The loop of a partition writes into the array that it still reads from. It only writes to free
slots, which have been read and not been written since: there are two registers' worth of them
before every load, and every load leaves room for a whole register on either side. So every register
is loaded with the elements that stood there when the loop began, and when nothing is left to read
the two registers that were held back fill the last free slots exactly. Each time the slots that are
written hold the lanes of the register afterwards, the failing ones and the passing ones in lane
order. -/

namespace VectorizedSort

variable {α : Type}

namespace Sweep

/-! ### Slots -/

section Slots

variable {width : Nat} (s : Sweep α width)

/-- The free slots: those from the store position up to the unread range, and those behind the
unread range up to the last one that a passing lane may still go to. -/
def freeSlots : Finset Nat := Finset.Ico s.store s.left ∪ Finset.Ico s.right s.top

/-- The position that the next register is loaded from. -/
def nextLoad : Nat := if s.freeRight < s.freeLeft then s.right - width else s.left

/-- The slots of the next register. -/
def loadSlots : Finset Nat := Finset.Ico s.nextLoad (s.nextLoad + width)

/-- The slots that a number of failing lanes go to. -/
def failSlots (count : Nat) : Finset Nat := Finset.Ico s.store (s.store + count)

/-- The slots that the passing lanes go to if the given number of lanes fail. -/
def passSlots (count : Nat) : Finset Nat := Finset.Ico (s.store + s.unplaced + count) s.top

variable {s} {i count : Nat}

theorem mem_freeSlots :
    i ∈ s.freeSlots ↔ s.store ≤ i ∧ i < s.left ∨ s.right ≤ i ∧ i < s.top := by
  rw [freeSlots, Finset.mem_union, Finset.mem_Ico, Finset.mem_Ico]

theorem mem_loadSlots : i ∈ s.loadSlots ↔ s.nextLoad ≤ i ∧ i < s.nextLoad + width :=
  Finset.mem_Ico

theorem mem_failSlots : i ∈ s.failSlots count ↔ s.store ≤ i ∧ i < s.store + count :=
  Finset.mem_Ico

theorem mem_passSlots :
    i ∈ s.passSlots count ↔ s.store + s.unplaced + count ≤ i ∧ i < s.top :=
  Finset.mem_Ico

/-- The failing lanes end before the passing lanes start. -/
theorem disjoint_failSlots_passSlots (s : Sweep α width) (count : Nat) :
    Disjoint (s.failSlots count) (s.passSlots count) := by
  rw [Finset.disjoint_left]
  intro i hfail hpass
  rw [mem_failSlots] at hfail
  rw [mem_passSlots] at hpass
  omega

/-- The free slots on both sides add up. -/
theorem card_freeSlots (hopen : s.left ≤ s.right) :
    s.freeSlots.card = s.freeLeft + s.freeRight := by
  have hdisjoint : Disjoint (Finset.Ico s.store s.left) (Finset.Ico s.right s.top) := by
    rw [Finset.disjoint_left]
    intro i hleft hright
    rw [Finset.mem_Ico] at hleft hright
    omega
  rw [freeSlots, Finset.card_union_of_disjoint hdisjoint, Nat.card_Ico, Nat.card_Ico, freeLeft,
    freeRight, top]

end Slots

/-- A list fills a set of slots: these are consecutive, one for each element of the list, and hold
the elements in order. -/
def Fills (mem : Array α) (slots : Finset Nat) (xs : List α) : Prop :=
  ∃ pos, slots = Finset.Ico pos (pos + xs.length) ∧
    ∀ k (h : k < xs.length), mem[pos + k]? = some xs[k]

/-- Slots stay filled in a memory that is the same there. -/
theorem Fills.congr {mem mem' : Array α} {slots : Finset Nat} {xs : List α}
    (h : Fills mem slots xs) (hsame : ∀ i ∈ slots, mem'[i]? = mem[i]?) : Fills mem' slots xs := by
  obtain ⟨pos, rfl, hmem⟩ := h
  refine ⟨pos, rfl, fun k hk => ?_⟩
  rw [hsame (pos + k) (Finset.mem_Ico.mpr ⟨Nat.le_add_right pos k, by omega⟩), hmem k hk]

/-- A list that is written fills the slots it is written to. -/
theorem fills_writeList {mem : Array α} {pos : Nat} {xs : List α}
    (h : pos + xs.length ≤ mem.size) :
    Fills (writeList mem pos xs) (Finset.Ico pos (pos + xs.length)) xs := by
  refine ⟨pos, rfl, fun k hk => ?_⟩
  rw [getElem?_writeList, if_pos (by omega), Nat.add_sub_cancel_left, List.getElem?_eq_getElem hk]

variable [Element α]

/-! ### Loads -/

section Loads

variable {width : Nat}

/-- The register that is loaded stands in the slots of the next load. -/
theorem take_fst (s : Sweep α width) : s.take.1 = load width s.mem s.nextLoad := by
  rw [take, nextLoad]
  split
  · rfl
  · rfl

/-- A load shortens the unread range on the side with fewer free slots. -/
theorem take_snd (s : Sweep α width) :
    (s.freeRight < s.freeLeft ∧ s.nextLoad = s.right - width ∧
        s.take.2 = { s with right := s.right - width }) ∨
      (s.freeLeft ≤ s.freeRight ∧ s.nextLoad = s.left ∧
        s.take.2 = { s with left := s.left + width }) := by
  rw [take, nextLoad]
  split
  · rename_i hside
    exact Or.inl ⟨hside, rfl, rfl⟩
  · rename_i hside
    exact Or.inr ⟨Nat.not_lt.mp hside, rfl, rfl⟩

@[simp] theorem unplaced_take (s : Sweep α width) : s.take.2.unplaced = s.unplaced := by
  rcases take_snd s with ⟨-, -, htake⟩ | ⟨-, -, htake⟩
  · rw [htake]
  · rw [htake]

@[simp] theorem mem_take (s : Sweep α width) : s.take.2.mem = s.mem := by
  rcases take_snd s with ⟨-, -, htake⟩ | ⟨-, -, htake⟩
  · rw [htake]
  · rw [htake]

/-- Registers are loaded alike from memories with the same elements in their slots. -/
theorem load_congr {mem mem' : Array α} {pos : Nat}
    (h : ∀ i, pos ≤ i → i < pos + width → mem[i]? = mem'[i]?) :
    load width mem pos = load width mem' pos := by
  rw [load, load]
  congr 1
  funext lane
  rw [peek, peek, Array.getD_eq_getD_getElem?, Array.getD_eq_getD_getElem?,
    h _ (Nat.le_add_right pos lane) (Nat.add_lt_add_left lane.isLt pos)]

section Room

variable {s : Sweep α width} {i : Nat} (hroom : s.left + width ≤ s.right)

include hroom

/-- A load takes its slots off the unread range. -/
theorem mem_unread_take :
    s.take.2.left ≤ i ∧ i < s.take.2.right ↔ (s.left ≤ i ∧ i < s.right) ∧ i ∉ s.loadSlots := by
  rw [mem_loadSlots]
  rcases take_snd s with ⟨-, hload, htake⟩ | ⟨-, hload, htake⟩
  · rw [htake, hload]
    simp only
    omega
  · rw [htake, hload]
    simp only
    omega

/-- The slots of the next register are unread. -/
theorem unread_of_mem_loadSlots (hi : i ∈ s.loadSlots) :
    s.left ≤ i ∧ i < s.right := by
  rw [mem_loadSlots] at hi
  rcases take_snd s with ⟨-, hload, -⟩ | ⟨-, hload, -⟩
  · omega
  · omega

end Room

end Loads

/-! ### Stores -/

section Stores

/-- The number of lanes of a register that fail. -/
def failCount {width : Nat} (test : Test) (pivot : α) (reg : Register α width) : Nat :=
  (failing test pivot reg.toList).length

/-- The slots that the lanes of a register go to. -/
def storeSlots {width : Nat} (test : Test) (pivot : α) (reg : Register α width)
    (s : Sweep α width) : Finset Nat :=
  s.failSlots (failCount test pivot reg) ∪ s.passSlots (failCount test pivot reg)

variable {lanes : Lanes} {test : Test} {pivot : α} {reg : Register α lanes.width}
  {s : Sweep α lanes.width}

section Count

variable (test pivot reg)

/-- A split store counts the lanes that pass; the others are those that fail. -/
theorem selected_add_failCount (mem : Array α) (left right : Nat) :
    (lanes.splitStore mem left right (test.mask lanes reg (broadcast lanes.width pivot))
      reg).selected + failCount test pivot reg = lanes.width := by
  have hlength := length_failing_add_length_passing_toList lanes test pivot reg
  rw [Lanes.selected_splitStore, selectedOf_mask, failCount]
  omega

theorem failCount_le : failCount test pivot reg ≤ lanes.width := by
  have hcount := selected_add_failCount test pivot reg #[] 0 0
  omega

end Count

/-- Placing a register writes to no other slots. -/
theorem getElem?_placed_of_notMem {i : Nat} (h : i ∉ storeSlots test pivot reg s) :
    (placed lanes test pivot reg s).mem[i]? = s.mem[i]? := by
  have hlength := length_failing_add_length_passing_toList lanes test pivot reg
  rw [storeSlots, Finset.mem_union, mem_failSlots, mem_passSlots, failCount, top] at h
  rw [mem_placed, getElem?_writeList, if_neg (by omega), getElem?_writeList, if_neg (by omega)]

/-- The slots of a register hold its lanes: the failing ones in lane order, and the passing ones in
lane order. -/
structure Stored (test : Test) (pivot : α) (reg : Register α lanes.width)
    (s : Sweep α lanes.width) (mem : Array α) : Prop where
  fail : Fills mem (s.failSlots (failCount test pivot reg)) (failing test pivot reg.toList)
  pass : Fills mem (s.passSlots (failCount test pivot reg)) (passing test pivot reg.toList)

/-- The lanes stay in their slots as long as these are not written again. -/
theorem Stored.congr {mem mem' : Array α} (h : Stored test pivot reg s mem)
    (hsame : ∀ i ∈ storeSlots test pivot reg s, mem'[i]? = mem[i]?) :
    Stored test pivot reg s mem' where
  fail := h.fail.congr fun i hi => hsame i (Finset.mem_union_left _ hi)
  pass := h.pass.congr fun i hi => hsame i (Finset.mem_union_right _ hi)

/-- Placing a register stores its lanes. -/
theorem placed_stored (htop : s.top ≤ s.mem.size) :
    Stored test pivot reg s (placed lanes test pivot reg s).mem := by
  have hlength := length_failing_add_length_passing_toList lanes test pivot reg
  rw [top] at htop
  have hpass : s.passSlots (failCount test pivot reg) =
      Finset.Ico (s.store + s.unplaced + (failing test pivot reg.toList).length)
        (s.store + s.unplaced + (failing test pivot reg.toList).length
          + (passing test pivot reg.toList).length) := by
    rw [passSlots, failCount, top, Nat.add_assoc _ (List.length _), hlength]
  rw [mem_placed]
  constructor
  case fail =>
    have hfits : s.store + (failing test pivot reg.toList).length ≤ s.mem.size := by
      omega
    -- the passing lanes, which are written last, go to slots behind the failing ones
    refine (fills_writeList hfits).congr fun i hi => ?_
    rw [Finset.mem_Ico] at hi
    rw [getElem?_writeList, if_neg (by omega)]
  case pass =>
    rw [hpass]
    exact fills_writeList (by rw [size_writeList]; omega)

end Stores

/-! ### Rounds of the loop -/

section Rounds

variable {lanes : Lanes} {test : Test} {pivot : α} {init : Extremes α} {v original : Array α}
  {held : Multiset α} {read : Finset Nat} {s : Sweep α lanes.width}

/-- What is safe about the load of a round, `read` being the slots that have been read before it and
`original` the memory that the loop began with. -/
structure SafeLoad (original : Array α) (read : Finset Nat) (s : Sweep α lanes.width) : Prop where
  /-- Before the load two registers' worth of slots is free. -/
  card_free : s.freeSlots.card = 2 * lanes.width
  /-- The unread range can be shortened on the right. -/
  width_le : lanes.width ≤ s.right
  /-- The load stays inside the memory. -/
  inside : s.nextLoad + lanes.width ≤ original.size
  /-- No slot is read twice. -/
  unread : Disjoint s.loadSlots read
  /-- The register holds the elements that the loop began with. -/
  reg_eq : s.take.1 = load lanes.width original s.nextLoad
  /-- After the load a register fits into the free slots on the left. -/
  room_left : lanes.width ≤ s.take.2.freeLeft
  /-- It also fits into those on the right. -/
  room_right : lanes.width ≤ s.take.2.freeRight

/-- What is safe about the stores of a round, which follow its load. -/
structure SafeStores (test : Test) (pivot : α) (original : Array α) (read : Finset Nat)
    (s : Sweep α lanes.width) : Prop where
  /-- The free slots have been read. -/
  free_read : s.take.2.freeSlots ⊆ read ∪ s.loadSlots
  /-- The free slots lie inside the memory. -/
  free_inside : s.take.2.freeSlots ⊆ Finset.range original.size
  /-- The failing lanes go to free slots. -/
  fail_free : s.take.2.failSlots (failCount test pivot s.take.1) ⊆ s.take.2.freeSlots
  /-- The passing lanes go to free slots. -/
  pass_free : s.take.2.passSlots (failCount test pivot s.take.1) ⊆ s.take.2.freeSlots
  /-- No slot is written twice. -/
  disjoint : Disjoint (s.take.2.failSlots (failCount test pivot s.take.1))
    (s.take.2.passSlots (failCount test pivot s.take.1))
  /-- Afterwards the lanes stand in their slots. -/
  stored : Stored test pivot s.take.1 s.take.2
    (s.step lanes test (broadcast lanes.width pivot)).mem
  /-- No other slot is written. -/
  elsewhere : ∀ i ∉ storeSlots test pivot s.take.1 s.take.2,
    (s.step lanes test (broadcast lanes.width pivot)).mem[i]? = s.mem[i]?

/-- What the history of the loop says about its state: the unread range holds the elements that the
loop began with, none of its slots has been read, and every free slot has been. -/
structure Traced (original : Array α) (read : Finset Nat) (s : Sweep α lanes.width) : Prop where
  original : ∀ i, s.left ≤ i → i < s.right → s.mem[i]? = original[i]?
  unread : ∀ i ∈ read, ¬ (s.left ≤ i ∧ i < s.right)
  free_read : s.freeSlots ⊆ read

variable (h : Sound test pivot init v held s)

include h

/-- Before a load the free slots are two registers wide. -/
theorem Sound.card_freeSlots : s.freeSlots.card = 2 * lanes.width := by
  have hstore := h.store_le
  have hright := h.right_le
  have hfree := h.free
  rw [Sweep.card_freeSlots h.left_le, freeLeft, freeRight]
  rw [top] at hright
  omega

variable (hroom : s.left + lanes.width ≤ s.right)

include hroom

/-- A load makes its own slots free and no others. -/
theorem Sound.mem_freeSlots_take {i : Nat} :
    i ∈ s.take.2.freeSlots ↔ i ∈ s.freeSlots ∨ i ∈ s.loadSlots := by
  have hstore := h.store_le
  have hright := h.right_le
  rw [mem_freeSlots, mem_freeSlots, mem_loadSlots]
  rw [top] at hright
  rcases take_snd s with ⟨-, hload, htake⟩ | ⟨-, hload, htake⟩
  · rw [htake, hload]
    simp only [top]
    omega
  · rw [htake, hload]
    simp only [top]
    omega

/-- After a load both sides have room for a register. -/
theorem Sound.room_take :
    lanes.width ≤ s.take.2.freeLeft ∧ lanes.width ≤ s.take.2.freeRight := by
  have hstore := h.store_le
  have hright := h.right_le
  have hfree := h.free
  rw [top] at hright
  -- the side with more free slots has the room already, and the load makes it on the other side
  rcases take_snd s with ⟨hside, -, htake⟩ | ⟨hside, -, htake⟩
  · rw [htake]
    simp only [freeLeft, freeRight] at hside ⊢
    omega
  · rw [htake]
    simp only [freeLeft, freeRight] at hside ⊢
    omega

/-- So no register is too wide for the free slots, however its lanes are split. -/
theorem Sound.stores_free (reg : Register α lanes.width) :
    s.take.2.failSlots (failCount test pivot reg) ⊆ s.take.2.freeSlots ∧
      s.take.2.passSlots (failCount test pivot reg) ⊆ s.take.2.freeSlots := by
  have hcount := failCount_le test pivot reg
  obtain ⟨hleft, hright⟩ := h.room_take hroom
  have htop := h.right_le
  rw [freeLeft] at hleft
  rw [freeRight] at hright
  constructor
  · intro i hi
    rw [mem_failSlots] at hi
    rw [mem_freeSlots]
    omega
  · intro i hi
    rw [mem_passSlots, top] at hi
    rw [mem_freeSlots, top]
    omega

variable (htraced : Traced v read s)

include htraced

theorem Sound.safeLoad (hsize : s.mem.size = v.size) : SafeLoad v read s where
  card_free := h.card_freeSlots
  width_le := (Nat.le_add_left _ _).trans hroom
  inside := by
    have htop := h.top_le
    have hright := h.right_le
    have hlast := unread_of_mem_loadSlots hroom (i := s.nextLoad + lanes.width - 1)
    have hpos := lanes.width_pos
    rw [mem_loadSlots] at hlast
    omega
  unread := by
    rw [Finset.disjoint_left]
    exact fun i hi hread => htraced.unread i hread (unread_of_mem_loadSlots hroom hi)
  reg_eq := by
    rw [take_fst]
    refine load_congr fun i hlow hhigh => ?_
    obtain ⟨hleft, hright⟩ := unread_of_mem_loadSlots hroom (mem_loadSlots.mpr ⟨hlow, hhigh⟩)
    exact htraced.original i hleft hright
  room_left := (h.room_take hroom).1
  room_right := (h.room_take hroom).2

theorem Sound.safeStores (hsize : s.mem.size = v.size) : SafeStores test pivot v read s where
  free_read := by
    intro i hi
    rw [h.mem_freeSlots_take hroom] at hi
    rw [Finset.mem_union]
    exact hi.imp_left fun hi => htraced.free_read hi
  free_inside := by
    intro i hi
    have htop := h.top_le
    have hright := h.right_le
    have hopen := h.left_le
    rw [h.mem_freeSlots_take hroom, mem_freeSlots] at hi
    rw [Finset.mem_range]
    rcases hi with hi | hi
    · omega
    · have hunread := unread_of_mem_loadSlots hroom hi
      omega
  fail_free := (h.stores_free hroom s.take.1).1
  pass_free := (h.stores_free hroom s.take.1).2
  disjoint := disjoint_failSlots_passSlots _ _
  stored := by
    refine placed_stored ?_
    rw [top, store_take, unplaced_take, mem_take]
    exact h.top_le
  elsewhere i hi := by
    rw [← mem_take s]
    exact getElem?_placed_of_notMem hi

/-- A round keeps the history: what it reads is no longer unread, and it writes nothing that is. -/
theorem Sound.traced_step :
    Traced v (read ∪ s.loadSlots) (s.step lanes test (broadcast lanes.width pivot)) := by
  obtain ⟨hfail, hpass⟩ := h.stores_free hroom s.take.1
  constructor
  case original =>
    intro i hleft hright
    have hclosed : i ∉ s.take.2.freeSlots := by
      rw [mem_freeSlots]
      exact fun hi => hi.elim (fun hi => absurd hleft (Nat.not_le.mpr hi.2))
        fun hi => absurd hright (Nat.not_lt.mpr hi.1)
    have hunread := ((mem_unread_take hroom).mp ⟨hleft, hright⟩).1
    rw [← htraced.original i hunread.1 hunread.2, ← mem_take s]
    refine getElem?_placed_of_notMem fun hi => hclosed ?_
    exact (Finset.mem_union.mp hi).elim (fun hi => hfail hi) fun hi => hpass hi
  case unread =>
    intro i hi hunread
    have hunread' := (mem_unread_take hroom).mp hunread
    rcases Finset.mem_union.mp hi with hi | hi
    · exact htraced.unread i hi hunread'.1
    · exact hunread'.2 hi
  case free_read =>
    -- the stores only take slots away from those that the load has left free
    intro i hi
    have hcount := failCount_le test pivot s.take.1
    have hstore : (s.step lanes test (broadcast lanes.width pivot)).store
        = s.take.2.store + failCount test pivot s.take.1 :=
      store_placed lanes test pivot s.take.1 s.take.2
    have hunplaced : (s.step lanes test (broadcast lanes.width pivot)).unplaced
        = s.take.2.unplaced - lanes.width := rfl
    have hfree := h.free
    have hfree_take : i ∈ s.take.2.freeSlots := by
      rw [mem_freeSlots, top, hstore, hunplaced] at hi
      rw [mem_freeSlots, top]
      rw [unplaced_take] at hi ⊢
      exact hi.imp (fun hi => ⟨by omega, hi.2⟩) fun hi => ⟨hi.1, by omega⟩
    rw [Finset.mem_union]
    exact ((h.mem_freeSlots_take hroom).mp hfree_take).imp_left fun hi => htraced.free_read hi

end Rounds

/-! ### The first and the last state of the loop -/

section Ends

variable {lanes : Lanes}

/-- Holding back the registers at both ends reads their slots and makes them free. -/
theorem traced_holdEnds {mem : Array α} {left right : Nat} (seen : Extremes α)
    (hroom : left + 2 * lanes.width ≤ right) :
    Traced mem
      (Finset.Ico left (left + lanes.width) ∪ Finset.Ico (right - lanes.width) right)
      (holdEnds lanes (start lanes mem left right seen)).2.2 where
  original _ _ _ := rfl
  unread i hi := by
    rw [Finset.mem_union, Finset.mem_Ico, Finset.mem_Ico] at hi
    show ¬ (left + lanes.width ≤ i ∧ i < right - lanes.width)
    omega
  free_read i hi := by
    rw [mem_freeSlots] at hi
    rw [Finset.mem_union, Finset.mem_Ico, Finset.mem_Ico]
    have htop : (holdEnds lanes (start lanes mem left right seen)).2.2.top = right := by
      show left + (right - left - lanes.width) + lanes.width = right
      omega
    rwa [htop] at hi

variable {test : Test} {pivot : α} {init : Extremes α} {v : Array α} {held : Multiset α}

/-- What the two registers that are held back do when nothing is left to read: they fill the free
slots, each of them once. -/
structure SafeEnd (test : Test) (pivot : α) (first last : Register α lanes.width) (size : Nat)
    (s : Sweep α lanes.width) : Prop where
  /-- Nothing is unread. -/
  left_eq : s.left = s.right
  /-- One more register than this is to be placed. -/
  unplaced_eq : s.unplaced = lanes.width
  /-- Two registers' worth of slots is free. -/
  card_free : s.freeSlots.card = 2 * lanes.width
  /-- The free slots lie inside the memory. -/
  free_inside : s.freeSlots ⊆ Finset.range size
  /-- The first register goes to no slot twice. -/
  first_once : Disjoint (s.failSlots (failCount test pivot first))
    (s.passSlots (failCount test pivot first))
  /-- Nor does the last one. -/
  last_once :
    let t := placed lanes test pivot first s
    Disjoint (t.failSlots (failCount test pivot last)) (t.passSlots (failCount test pivot last))
  /-- The last register goes to no slot that the first one has gone to. -/
  once : Disjoint (storeSlots test pivot first s)
    (storeSlots test pivot last (placed lanes test pivot first s))
  /-- Together they go to all free slots and to no others. -/
  filled : storeSlots test pivot first s ∪
    storeSlots test pivot last (placed lanes test pivot first s) = s.freeSlots
  /-- In the end the lanes of the first register stand in their slots. -/
  first_stored : Stored test pivot first s
    (placed lanes test pivot last (placed lanes test pivot first s)).mem
  /-- So do those of the last one. -/
  last_stored : Stored test pivot last (placed lanes test pivot first s)
    (placed lanes test pivot last (placed lanes test pivot first s)).mem
  /-- No other slot is written. -/
  elsewhere : ∀ i ∉ s.freeSlots,
    (placed lanes test pivot last (placed lanes test pivot first s)).mem[i]? = s.mem[i]?

theorem Sound.safeEnd {s : Sweep α lanes.width} (h : Sound test pivot init v held s)
    (hread : s.left = s.right) (first last : Register α lanes.width) :
    SafeEnd test pivot first last s.mem.size s := by
  have hstore := h.store_le
  have hright := h.right_le
  have htop := h.top_le
  have hfree := h.free
  have hfirst := failCount_le test pivot first
  have hlast := failCount_le test pivot last
  have hfirst_stored : Stored test pivot first s (placed lanes test pivot first s).mem :=
    placed_stored htop
  have hunplaced : s.unplaced = lanes.width := by omega
  rw [top, hunplaced] at hright htop
  have hstore' : (placed lanes test pivot first s).store = s.store + failCount test pivot first :=
    store_placed lanes test pivot first s
  have hunplaced' : (placed lanes test pivot first s).unplaced = 0 := by
    show s.unplaced - lanes.width = 0
    omega
  -- all slots in terms of the store position
  have hfree_mem (i : Nat) :
      i ∈ s.freeSlots ↔ s.store ≤ i ∧ i < s.store + 2 * lanes.width := by
    rw [mem_freeSlots, top, hunplaced]
    omega
  have hfirst_mem (i : Nat) : i ∈ storeSlots test pivot first s ↔
      s.store ≤ i ∧ i < s.store + failCount test pivot first ∨
        s.store + lanes.width + failCount test pivot first ≤ i ∧
          i < s.store + 2 * lanes.width := by
    rw [storeSlots, Finset.mem_union, mem_failSlots, mem_passSlots, top, hunplaced]
    omega
  have hlast_mem (i : Nat) :
      i ∈ storeSlots test pivot last (placed lanes test pivot first s) ↔
        s.store + failCount test pivot first ≤ i ∧
          i < s.store + failCount test pivot first + lanes.width := by
    rw [storeSlots, Finset.mem_union, mem_failSlots, mem_passSlots, top, hstore', hunplaced']
    omega
  have honce : Disjoint (storeSlots test pivot first s)
      (storeSlots test pivot last (placed lanes test pivot first s)) := by
    rw [Finset.disjoint_left]
    intro i hi hi'
    rw [hfirst_mem] at hi
    rw [hlast_mem] at hi'
    omega
  constructor
  case left_eq => exact hread
  case unplaced_eq => exact hunplaced
  case card_free => exact h.card_freeSlots
  case free_inside =>
    intro i hi
    rw [hfree_mem] at hi
    rw [Finset.mem_range]
    omega
  case first_once => exact disjoint_failSlots_passSlots _ _
  case last_once => exact disjoint_failSlots_passSlots _ _
  case once => exact honce
  case filled =>
    ext i
    rw [Finset.mem_union, hfree_mem, hfirst_mem, hlast_mem]
    omega
  case first_stored =>
    exact hfirst_stored.congr fun i hi =>
      getElem?_placed_of_notMem (Finset.disjoint_left.mp honce hi)
  case last_stored =>
    refine placed_stored ?_
    rw [top, hstore', hunplaced', show (placed lanes test pivot first s).mem.size = s.mem.size from
      size_mem_place ..]
    omega
  case elsewhere =>
    intro i hi
    have hfirst_not : i ∉ storeSlots test pivot first s := by
      rw [hfirst_mem]
      rw [hfree_mem] at hi
      omega
    have hlast_not : i ∉ storeSlots test pivot last (placed lanes test pivot first s) := by
      rw [hlast_mem]
      rw [hfree_mem] at hi
      omega
    rw [getElem?_placed_of_notMem hlast_not, getElem?_placed_of_notMem hfirst_not]

end Ends

end Sweep

/-! ### Partitions of at least two registers -/

section Partition

variable [Element α] (lanes : Lanes) (test : Test) (v : Array α) (pivot : α) (init : Extremes α)

/-- The slots that a partition has read when its loop has loaded `n` registers: those of the
registers that are held back and those of the loaded ones. -/
def slotsRead : Nat → Finset Nat
  | 0 =>
    let t := trimToRegisters lanes test v pivot init
    Finset.Ico t.left (t.left + lanes.width) ∪ Finset.Ico (t.right - lanes.width) t.right
  | n + 1 => slotsRead n ∪ (sweepAfter lanes test v pivot init n).loadSlots

theorem Sweep.steps_succ (pivots : Register α lanes.width) (n : Nat) (s : Sweep α lanes.width) :
    Sweep.steps lanes test pivots (n + 1) s =
      (Sweep.steps lanes test pivots n s).step lanes test pivots := by
  induction n generalizing s with
  | zero => rfl
  | succ n ih => exact ih (s.step lanes test pivots)

theorem sweepAfter_succ (n : Nat) :
    sweepAfter lanes test v pivot init (n + 1) =
      (sweepAfter lanes test v pivot init n).step lanes test (broadcast lanes.width pivot) :=
  Sweep.steps_succ lanes test _ n _

variable {lanes v}

/-- Two registers or more are left when the array is trimmed. -/
theorem trimToRegisters_room (hsize : 2 * lanes.width ≤ v.size) :
    let t := trimToRegisters lanes test v pivot init
    t.left + 2 * lanes.width ≤ t.right ∧ t.right ≤ v.size ∧ t.items.size = v.size := by
  obtain ⟨hitems, hopen, hright⟩ := trimToRegisters_bounds lanes test v pivot init
  have htwo : 2 ≤ v.size / lanes.width := (Nat.le_div_iff_mul_le lanes.width_pos).mpr hsize
  have hwhole := Nat.mul_le_mul_right lanes.width htwo
  have hdiv := Nat.div_add_mod' v.size lanes.width
  exact ⟨by omega, hright, hitems⟩

/-- While the loop has not come to its last register, one more can be loaded. -/
theorem room_sweepAfter {n : Nat} (hn : n + 3 ≤ v.size / lanes.width) :
    let s := sweepAfter lanes test v pivot init n
    s.left + lanes.width ≤ s.right := by
  obtain ⟨-, -, hread⟩ := sweepAfter_sound lanes test v pivot init (Nat.le_of_succ_le hn)
  have hleft := Nat.mul_le_mul_right lanes.width hn
  have hone : (n + 3) * lanes.width = (n + 2) * lanes.width + lanes.width := Nat.succ_mul _ _
  simp only
  omega

theorem traced_sweepAfter {n : Nat} (hn : n + 2 ≤ v.size / lanes.width) :
    Sweep.Traced (trimToRegisters lanes test v pivot init).items
      (slotsRead lanes test v pivot init n) (sweepAfter lanes test v pivot init n) := by
  induction n with
  | zero =>
    have hsize := (Nat.le_div_iff_mul_le lanes.width_pos).mp hn
    exact Sweep.traced_holdEnds _ (trimToRegisters_room test pivot init hsize).1
  | succ n ih =>
    obtain ⟨⟨held, hsound⟩, -, -⟩ :=
      sweepAfter_sound lanes test v pivot init (Nat.le_of_succ_le hn)
    rw [sweepAfter_succ]
    exact hsound.traced_step (room_sweepAfter test pivot init hn) (ih (Nat.le_of_succ_le hn))

/-- A partition of at least two registers runs its loop until two registers are left, and then
places those that were held back. -/
theorem partitionRange_eq_sweepAfter (hsize : 2 * lanes.width ≤ v.size) :
    let t := trimToRegisters lanes test v pivot init
    let first := load lanes.width t.items t.left
    let last := load lanes.width t.items (t.right - lanes.width)
    let s := Sweep.placed lanes test pivot last (Sweep.placed lanes test pivot first
      (sweepAfter lanes test v pivot init (v.size / lanes.width - 2)))
    partitionRange lanes test v pivot init = ⟨s.mem, s.store, s.seen.reduce lanes⟩ := by
  obtain ⟨hroom, hright, -⟩ := trimToRegisters_room test pivot init hsize
  obtain ⟨-, hopen, -⟩ := trimToRegisters_bounds lanes test v pivot init
  have hpos := lanes.width_pos
  rw [partitionRange, sweepAfter]
  simp only at hroom hopen ⊢
  generalize trimToRegisters lanes test v pivot init = t at *
  have hcount : (t.right - lanes.width - (t.left + lanes.width)) / lanes.width =
      v.size / lanes.width - 2 := by
    have hdiv := Nat.div_add_mod' v.size lanes.width
    have htwo := Nat.sub_mul (v.size / lanes.width) 2 lanes.width
    rw [show t.right - lanes.width - (t.left + lanes.width)
      = (v.size / lanes.width - 2) * lanes.width by omega]
    exact Nat.mul_div_cancel _ hpos
  rw [if_neg (by omega), Sweep.run]
  simp only
  rw [if_neg (by omega), ← hcount]
  rfl

variable (lanes v)

/-- The loop of a partition of at least two registers. The lanes of a register that do not pass
fail. In every round, whatever the elements, the pivot and the earlier rounds were: the cursors are
in order, two registers' worth of slots is free before the load, the load reads slots inside the
array that have not been read before and finds there what the loop began with, both sides have room
for a register afterwards, and the failing and the passing lanes go to free slots, which have been
read, and to no slot twice, and stand there in lane order when the round is over. When the unread
range is empty, the registers that were held back fill the free slots exactly, every lane of them in
its slot, which finishes the partition. -/
theorem loop_writes_free_slots (hsize : 2 * lanes.width ≤ v.size) :
    let t := trimToRegisters lanes test v pivot init
    let state := sweepAfter lanes test v pivot init
    let read := slotsRead lanes test v pivot init
    let rounds := v.size / lanes.width - 2
    let first := load lanes.width t.items t.left
    let last := load lanes.width t.items (t.right - lanes.width)
    (t.left + 2 * lanes.width ≤ t.right ∧ t.right ≤ v.size ∧ t.items.size = v.size) ∧
    (∀ (mem : Array α) (left right : Nat) (reg : Register α lanes.width),
      (lanes.splitStore mem left right (test.mask lanes reg (broadcast lanes.width pivot))
        reg).selected + Sweep.failCount test pivot reg = lanes.width) ∧
    (∀ n < rounds, (state n).left ≠ (state n).right ∧ (state n).InRange v.size ∧
      (state n).SafeLoad t.items (read n) ∧ (state n).SafeStores test pivot t.items (read n) ∧
      state (n + 1) = (state n).step lanes test (broadcast lanes.width pivot)) ∧
    (state rounds).SafeEnd test pivot first last v.size ∧
    let s := Sweep.placed lanes test pivot last (Sweep.placed lanes test pivot first (state rounds))
    partitionRange lanes test v pivot init = ⟨s.mem, s.store, s.seen.reduce lanes⟩ := by
  intro t state read rounds first last
  have hroom := trimToRegisters_room test pivot init hsize
  have htwo : 2 ≤ v.size / lanes.width := (Nat.le_div_iff_mul_le lanes.width_pos).mpr hsize
  refine ⟨hroom,
    fun mem left right reg => Sweep.selected_add_failCount test pivot reg mem left right,
    fun n hn => ?_, ?_, partitionRange_eq_sweepAfter test pivot init hsize⟩
  · have hread : n + 3 ≤ v.size / lanes.width := by omega
    have hpos := lanes.width_pos
    obtain ⟨⟨held, hsound⟩, hmem, -⟩ :=
      sweepAfter_sound lanes test v pivot init (Nat.le_of_succ_le hread)
    have hnext : (state n).left + lanes.width ≤ (state n).right :=
      room_sweepAfter test pivot init hread
    have htraced := traced_sweepAfter test pivot init (Nat.le_of_succ_le hread)
    have hitems : (state n).mem.size = t.items.size := hmem.trans hroom.2.2.symm
    exact ⟨by omega, hmem ▸ hsound.inRange, hsound.safeLoad hnext htraced hitems,
      hsound.safeStores hnext htraced hitems, sweepAfter_succ lanes test v pivot init n⟩
  · have hrounds : rounds + 2 = v.size / lanes.width := Nat.sub_add_cancel htwo
    obtain ⟨⟨held, hsound⟩, hmem, -⟩ :=
      sweepAfter_sound lanes test v pivot init (Nat.le_of_eq hrounds)
    obtain ⟨-, hlast⟩ := sweepAfter_inRange lanes test v pivot init (Nat.le_of_eq hrounds)
    exact hmem ▸ hsound.safeEnd (hlast hrounds).1.symm first last

/-- Seven floats, one of them a NaN, are three registers of width two and one element that is
trimmed, so the loop has one round. -/
theorem loop_writes_free_slots_of_three_registers :
    let v : Array Binary32 :=
      #[⟨0x40000000⟩, .quietNaN, ⟨0⟩, ⟨0x80000000⟩, ⟨0x3f800000⟩, .infinity, ⟨0xbf800000⟩]
    let lanes : Lanes := .portable 2 (by decide)
    let t := trimToRegisters lanes .above v ⟨0⟩ .seed
    let state := sweepAfter lanes .above v ⟨0⟩ .seed
    2 * lanes.width ≤ v.size ∧ (state 0).freeSlots.card = 4 ∧
      (state 0).SafeStores .above ⟨0⟩ t.items (slotsRead lanes .above v ⟨0⟩ .seed 0) ∧
      (state 1).SafeEnd .above ⟨0⟩ (load lanes.width t.items t.left)
        (load lanes.width t.items (t.right - lanes.width)) v.size := by
  intro v lanes t state
  obtain ⟨-, -, hrounds, hend, -⟩ := loop_writes_free_slots lanes .above v ⟨0⟩ .seed (by decide)
  have hone : v.size / lanes.width - 2 = 1 := by decide
  rw [hone] at hend
  obtain ⟨-, -, hload, hstores, -⟩ := hrounds 0 (by decide)
  exact ⟨by decide, hload.card_free, hstores, hend⟩

end Partition

end VectorizedSort
