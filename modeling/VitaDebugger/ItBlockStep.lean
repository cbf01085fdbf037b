import VitaDebugger.StepEscape

/-! Single steps in and into an IT block. The planner walks the slots behind the stepped
instruction under the flags of the stop; it agrees with the processor as long as the instruction
does not turn the block's condition over. -/

namespace VitaDebugger.ItBlockStep
open BitField ArmArchitecture ThumbArchitecture StepPlanner StepInsertion StepFields StepTraps
open ThumbPlan
open ThumbStep
open StepEscape

theorem itstateAdvance_eq {it : ℕ} (hs : it < 256) : uvdbThumbItstateAdvance it = itAdvance it := by
  have all : ∀ st : Fin 256, uvdbThumbItstateAdvance st = itAdvance st := by decide +kernel
  exact all ⟨it, hs⟩

theorem itState_lt (c : Word) : itState c < 256 := by
  have hh : bits c 15 10 < 64 := bits_lt c 15 10
  have low : bits c 26 25 < 4 := bits_lt c 26 25
  simp only [itState]
  omega

section Slot
variable {it : ℕ}

theorem itAdvance_more (more : itAdvance it ≠ 0) :
    itAdvance it = it / 32 * 32 + it * 2 % 32 ∧ it % 8 ≠ 0 := by
  by_cases last : it % 8 = 0
  · exact absurd (if_pos last) more
  · exact ⟨if_neg last, last⟩

/-- A block has at most four slots. -/
theorem itAdvance_four (it : ℕ) : itAdvance (itAdvance (itAdvance (itAdvance it))) = 0 := by
  simp only [itAdvance]
  split_ifs <;> omega

theorem slots_left {slots : ℕ} (ends : it * 2 ^ (slots + 1) % 16 = 0) (more : itAdvance it ≠ 0) :
    0 < slots ∧ itAdvance it * 2 ^ slots % 16 = 0 := by
  obtain ⟨shifted, lower⟩ := itAdvance_more more
  constructor
  · by_contra none
    obtain rfl : slots = 0 := by omega
    exact lower (by omega)
  · rw [Nat.mul_mod, show itAdvance it % 16 = it * 2 % 16 by omega, ← Nat.mul_mod, Nat.mul_assoc,
      ← pow_succ']
    exact ends

theorem conditionPassed_odd {b : ℕ} (hs : b < 7) (flags : Word) :
    conditionPassed (b * 2 + 1) flags = !conditionPassed (b * 2) flags := by
  have hh : (b * 2 + 1) / 2 = b * 2 / 2 := by omega
  simp only [conditionPassed, hh]
  rw [if_pos (by omega), if_neg (by omega)]

/-- Only the condition that always holds has no other half. -/
theorem base_of_fails {flags : Word} (conditional : it / 16 < 15)
    (fails : conditionPassed (it / 16) flags = false) : it / 32 < 7 := by
  by_contra always
  rw [show it / 16 = 14 by omega] at fails
  cases fails

theorem conditionPassed_slot {flags after : Word} (conditional : it / 16 < 15) :
    conditionPassed (it / 16) after = conditionPassed (it / 16) flags ↔
      conditionPassed (it / 32 * 2) after = conditionPassed (it / 32 * 2) flags := by
  by_cases even : it / 16 % 2 = 0
  · rw [show it / 16 = it / 32 * 2 by omega]
  rw [show it / 16 = it / 32 * 2 + 1 by omega, conditionPassed_odd (by omega),
    conditionPassed_odd (by omega)]
  exact Bool.not_inj_iff

theorem later_slot {flags : Word} (conditional : it / 16 < 15)
    (fails : conditionPassed (it / 16) flags = false) (more : itAdvance it ≠ 0) :
    itAdvance it / 16 < 15 ∧ itAdvance it / 32 = it / 32 := by
  have base := base_of_fails conditional fails
  obtain ⟨shifted, -⟩ := itAdvance_more more
  omega

end Slot

variable {address : Word}

theorem insert_even (he : address &&& 1 = 0) :
    breakpointInsertInternal address 2 = .trap address 2 := by
  have ha : Successor.Aligned ⟨address, .thumb⟩ := he
  exact breakpointInsertInternal_aligned ha

theorem even_add {n : ℕ} (he : address &&& 1 = 0) (hl : n % 2 = 0) :
    address + BitVec.ofNat 32 n &&& 1 = 0 := by
  rw [and_one_iff] at he ⊢
  rw [BitVec.toNat_add, BitVec.toNat_ofNat]
  omega

theorem thumbLength_cases (first : Halfword) : thumbLength first = 2 ∨ thumbLength first = 4 := by
  simp only [thumbLength]
  split
  · exact .inr rfl
  · exact .inl rfl

theorem even_next (first : Halfword) (even : address &&& 1 = 0) :
    address + BitVec.ofNat 32 (thumbLength first) &&& 1 = 0 :=
  even_add even (by have length := thumbLength_cases first; omega)

/-- The step is refused, or its trap is where the walk over the failing slots ends: at the first
slot whose condition passes, or behind the block. -/
def Lands (memory : Memory) (after start : Word) (it : ℕ) (outcome : StepOutcome) : Prop :=
  outcome = .refused ∨ ∃ address state, Skips memory after start it address state ∧
    (state = 0 ∨ conditionPassed (state / 16) after = true) ∧ outcome = .trap address 2

/-- No failing slot of the walk holds a breakpoint instruction. -/
def Passable (memory : Memory) (after start : Word) (it : ℕ) : Prop :=
  ∀ address state first, Skips memory after start it address state → state ≠ 0 →
    conditionPassed (state / 16) after = false → readHalfword memory address = some first →
    bits first 15 8 ≠ 0xbe

/-- Going on from a slot over those whose condition fails, whatever they hold, comes to one that
cannot be read. -/
inductive Unreadable (memory : Memory) (flags : Word) : Word → ℕ → Prop
  | here {address : Word} {it : ℕ} (inside : it ≠ 0)
      (fails : conditionPassed (it / 16) flags = false)
      (missing : readHalfword memory address = none) : Unreadable memory flags address it
  | later {address : Word} {it : ℕ} {first : Halfword} (inside : it ≠ 0)
      (fails : conditionPassed (it / 16) flags = false)
      (fetched : readHalfword memory address = some first)
      (rest : Unreadable memory flags (address + BitVec.ofNat 32 (thumbLength first))
        (itAdvance it)) : Unreadable memory flags address it

section Walk
variable {memory : Memory} {flags after start : Word} {it : ℕ} {first : Halfword}

theorem skips_executed (stops : it = 0 ∨ conditionPassed (it / 16) after = true) {state : ℕ}
    (walk : Skips memory after start it address state) : address = start ∧ state = it := by
  induction walk with
  | start => exact ⟨rfl, rfl⟩
  | slot before inside conditional fails fetched passable ih =>
    rw [ih.2] at inside fails
    rcases stops with zero | passes
    · exact absurd zero inside
    · rw [passes] at fails
      cases fails

/-- A walk of `steps` slots is at most that many wide instructions ahead. -/
theorem skips_ahead {state : ℕ} (walk : Skips memory after start it address state) :
    ∃ distance steps, address = start + BitVec.ofNat 32 distance ∧ state = itAdvance^[steps] it ∧
      2 * steps ≤ distance ∧ distance ≤ 4 * steps ∧ steps ≤ 4 := by
  induction walk with
  | start => exact ⟨0, 0, by simp, rfl, le_rfl, le_rfl, by decide⟩
  | slot before inside conditional fails fetched passable ih =>
    next slotAddress state first =>
    obtain ⟨distance, steps, rfl, rfl, low, high, few⟩ := ih
    have length := thumbLength_cases first
    have fewer : steps ≠ 4 := by
      rintro rfl
      exact inside (itAdvance_four it)
    refine ⟨distance + thumbLength first, steps + 1, ?_, ?_, by omega, by omega, by omega⟩
    · rw [BitVec.ofNat_add, BitVec.add_assoc]
    · rw [Function.iterate_succ_apply']

theorem ne_ahead {distance : ℕ} (low : 0 < distance) (high : distance ≤ 16) :
    start + BitVec.ofNat 32 distance ≠ start := by
  intro same
  have value := congrArg BitVec.toNat same
  rw [BitVec.toNat_add, BitVec.toNat_ofNat] at value
  omega

theorem skips_back {state : ℕ} (walk : Skips memory after start it start state) : state = it := by
  obtain ⟨distance, steps, same, rfl, low, high, few⟩ := skips_ahead walk
  obtain rfl : steps = 0 := by
    by_contra moved
    exact ne_ahead (by omega) (by omega) same.symm
  rfl

section Failing
variable (inside : it ≠ 0) (fails : conditionPassed (it / 16) after = false)
variable (fetched : readHalfword memory start = some first)
include inside fails fetched

theorem skips_from (conditional : it / 16 < 15) (passable : bits first 15 8 ≠ 0xbe) {state : ℕ} :
    Skips memory after start it address state ↔ address = start ∧ state = it ∨
      Skips memory after (start + BitVec.ofNat 32 (thumbLength first)) (itAdvance it)
        address state := by
  constructor
  · intro walk
    induction walk with
    | start => exact .inl ⟨rfl, rfl⟩
    | slot before inside' conditional' fails' fetched' passable' ih =>
      rcases ih with ⟨rfl, rfl⟩ | later
      · rw [fetched] at fetched'
        cases fetched'
        exact .inr .start
      · exact .inr (.slot later inside' conditional' fails' fetched' passable')
  · rintro (⟨rfl, rfl⟩ | later)
    · exact .start
    induction later with
    | start => exact .slot .start inside conditional fails fetched passable
    | slot before inside' conditional' fails' fetched' passable' ih =>
      exact .slot ih inside' conditional' fails' fetched' passable'

theorem skips_blocked (breakpoint : bits first 15 8 = 0xbe) {state : ℕ}
    (walk : Skips memory after start it address state) : address = start ∧ state = it := by
  induction walk with
  | start => exact ⟨rfl, rfl⟩
  | slot before inside' conditional' fails' fetched' passable ih =>
    obtain ⟨rfl, rfl⟩ := ih
    rw [fetched] at fetched'
    cases fetched'
    exact absurd breakpoint passable

theorem lands_later (conditional : it / 16 < 15) (passable : bits first 15 8 ≠ 0xbe)
    {outcome : StepOutcome} :
    Lands memory after start it outcome ↔
      Lands memory after (start + BitVec.ofNat 32 (thumbLength first)) (itAdvance it) outcome := by
  have stops (state : ℕ) (ends : state = 0 ∨ conditionPassed (state / 16) after = true) :
      state ≠ it := by
    rintro rfl
    simp [inside, fails] at ends
  simp only [Lands, skips_from inside fails fetched conditional passable]
  refine or_congr_right (exists_congr fun address => exists_congr fun state => ?_)
  have apart := stops state
  tauto

theorem lands_blocked (breakpoint : bits first 15 8 = 0xbe) {outcome : StepOutcome} :
    Lands memory after start it outcome ↔ outcome = .refused := by
  refine or_iff_left ?_
  rintro ⟨address, state, walk, ends, -⟩
  rw [(skips_blocked inside fails fetched breakpoint walk).2] at ends
  simp [inside, fails] at ends

theorem passable_from (conditional : it / 16 < 15) :
    Passable memory after start it ↔ bits first 15 8 ≠ 0xbe ∧
      Passable memory after (start + BitVec.ofNat 32 (thumbLength first)) (itAdvance it) := by
  constructor
  · intro all
    have passable := all start it first .start inside fails fetched
    refine ⟨passable, fun address state slot walk => all address state slot ?_⟩
    exact (skips_from inside fails fetched conditional passable).mpr (.inr walk)
  · rintro ⟨passable, rest⟩ address state slot walk
    rcases (skips_from inside fails fetched conditional passable).mp walk with ⟨rfl, rfl⟩ | later
    · intro _ _ again
      rw [fetched] at again
      cases again
      exact passable
    · exact rest address state slot later

theorem unreadable_from : Unreadable memory after start it ↔
    Unreadable memory after (start + BitVec.ofNat 32 (thumbLength first)) (itAdvance it) := by
  refine ⟨fun missing => ?_, .later inside fails fetched⟩
  cases missing with
  | here _ _ missing => cases fetched.symm.trans missing
  | later _ _ again rest =>
    rw [fetched] at again
    cases again
    exact rest

end Failing

theorem passable_executed (stops : it = 0 ∨ conditionPassed (it / 16) after = true) :
    Passable memory after start it := by
  intro address state slot walk inside fails
  rw [(skips_executed stops walk).2] at inside fails
  simp [inside, fails] at stops

theorem unreadable_fails (missing : Unreadable memory flags address it) :
    it ≠ 0 ∧ conditionPassed (it / 16) flags = false := by
  cases missing with
  | here inside fails => exact ⟨inside, fails⟩
  | later inside fails => exact ⟨inside, fails⟩

theorem lands_stop (even : start &&& 1 = 0)
    (stops : it = 0 ∨ conditionPassed (it / 16) after = true) :
    Lands memory after start it (breakpointInsertInternal start 2) :=
  .inr ⟨start, it, .start, stops, insert_even even⟩

end Walk

section Slots
variable {memory : Memory} {flags after start : Word} {it : ℕ}

section Step
variable (slots : ℕ) (conditional : it / 16 < 15)
include conditional

theorem skipThumbSlots_executed (passes : conditionPassed (it / 16) flags = true) :
    skipThumbSlots memory flags (slots + 1) start it = breakpointInsertInternal start 2 := by
  simp only [skipThumbSlots, Nat.shiftRight_eq_div_pow, Nat.reducePow,
    uvdbArmConditionPassed_eq flags conditional, passes, ↓reduceIte]

variable (fails : conditionPassed (it / 16) flags = false)
include fails

theorem skipThumbSlots_missing (missing : readHalfword memory start = none) :
    skipThumbSlots memory flags (slots + 1) start it = .refused := by
  simp only [skipThumbSlots, Nat.shiftRight_eq_div_pow, Nat.reducePow,
    uvdbArmConditionPassed_eq flags conditional, fails, Bool.false_eq_true, ↓reduceIte, missing]

theorem skipThumbSlots_skipped {first : Halfword}
    (fetched : readHalfword memory start = some first) :
    skipThumbSlots memory flags (slots + 1) start it =
      if itAdvance it = 0 then
        breakpointInsertInternal (start + BitVec.ofNat 32 (thumbLength first)) 2
      else skipThumbSlots memory flags slots (start + BitVec.ofNat 32 (thumbLength first))
        (itAdvance it) := by
  simp only [skipThumbSlots, Nat.shiftRight_eq_div_pow, Nat.reducePow,
    uvdbArmConditionPassed_eq flags conditional, fails, Bool.false_eq_true, ↓reduceIte, fetched,
    itstateAdvance_eq (show it < 256 by omega), thumbSize_eq, thumbLength]

end Step

theorem skipThumbSlots_refused_iff (slots : ℕ) (even : start &&& 1 = 0) (inside : it ≠ 0)
    (conditional : it / 16 < 15) (ends : 0 < slots ∧ it * 2 ^ slots % 16 = 0) :
    skipThumbSlots memory flags slots start it = .refused ↔ Unreadable memory flags start it := by
  induction slots generalizing start it with
  | zero => exact absurd ends.1 (Nat.lt_irrefl 0)
  | succ slots ih =>
    cases passes : conditionPassed (it / 16) flags with
    | true =>
      rw [skipThumbSlots_executed slots conditional passes, insert_even even]
      refine iff_of_false (by rintro ⟨⟩) fun missing => ?_
      rw [(unreadable_fails missing).2] at passes
      cases passes
    | false =>
      cases fetched : readHalfword memory start with
      | none =>
        exact iff_of_true (skipThumbSlots_missing slots conditional passes fetched)
          (.here inside passes fetched)
      | some first =>
        rw [skipThumbSlots_skipped slots conditional passes fetched,
          unreadable_from inside passes fetched]
        by_cases last : itAdvance it = 0
        · rw [if_pos last, insert_even (even_next first even)]
          exact iff_of_false (by rintro ⟨⟩) fun missing => (unreadable_fails missing).1 last
        · rw [if_neg last]
          exact ih (even_next first even) last (later_slot conditional passes last).1
            (slots_left ends.2 last)

theorem skipThumbSlots_ahead {size : ℕ} (slots : ℕ) (even : start &&& 1 = 0)
    (conditional : it / 16 < 15)
    (trap : skipThumbSlots memory flags slots start it = .trap address size) :
    ∃ distance, address = start + BitVec.ofNat 32 distance ∧ distance ≤ 4 * slots ∧
      (conditionPassed (it / 16) flags = false → 0 < slots → 0 < distance) := by
  induction slots generalizing start it with
  | zero =>
    rw [skipThumbSlots, insert_even even] at trap
    cases trap
    exact ⟨0, by simp, le_rfl, fun _ => id⟩
  | succ slots ih =>
    cases passes : conditionPassed (it / 16) flags with
    | true =>
      rw [skipThumbSlots_executed slots conditional passes, insert_even even] at trap
      cases trap
      exact ⟨0, by simp, Nat.zero_le _, by rintro ⟨⟩⟩
    | false =>
      cases fetched : readHalfword memory start with
      | none =>
        rw [skipThumbSlots_missing slots conditional passes fetched] at trap
        cases trap
      | some first =>
        have length := thumbLength_cases first
        have next := even_next first even
        rw [skipThumbSlots_skipped slots conditional passes fetched] at trap
        by_cases last : itAdvance it = 0
        · rw [if_pos last, insert_even next] at trap
          cases trap
          exact ⟨thumbLength first, rfl, by omega, fun _ _ => by omega⟩
        · rw [if_neg last] at trap
          obtain ⟨distance, rfl, high, -⟩ := ih next (later_slot conditional passes last).1 trap
          refine ⟨thumbLength first + distance, ?_, by omega, fun _ _ => by omega⟩
          rw [BitVec.ofNat_add, BitVec.add_assoc]

/-- Where both flags agree on the block's condition the two walks pass over the same slots. -/
theorem skipThumbSlots_same (slots : ℕ) (even : start &&& 1 = 0) (inside : it ≠ 0)
    (conditional : it / 16 < 15) (ends : 0 < slots ∧ it * 2 ^ slots % 16 = 0)
    (same : conditionPassed (it / 32 * 2) after = conditionPassed (it / 32 * 2) flags) :
    Lands memory after start it (skipThumbSlots memory flags slots start it) ↔
      Unreadable memory flags start it ∨ Passable memory after start it := by
  induction slots generalizing start it with
  | zero => exact absurd ends.1 (Nat.lt_irrefl 0)
  | succ slots ih =>
    have agree := (conditionPassed_slot conditional).mpr same
    cases passes : conditionPassed (it / 16) flags with
    | true =>
      rw [passes] at agree
      rw [skipThumbSlots_executed slots conditional passes]
      exact iff_of_true (lands_stop even (.inr agree)) (.inr (passable_executed (.inr agree)))
    | false =>
      rw [passes] at agree
      cases fetched : readHalfword memory start with
      | none =>
        exact iff_of_true (.inl (skipThumbSlots_missing slots conditional passes fetched))
          (.inl (.here inside passes fetched))
      | some first =>
        rw [passable_from inside agree fetched conditional]
        by_cases breakpoint : bits first 15 8 = 0xbe
        · rw [lands_blocked inside agree fetched breakpoint,
            skipThumbSlots_refused_iff (slots + 1) even inside conditional ends]
          simp [breakpoint]
        rw [lands_later inside agree fetched conditional breakpoint,
          skipThumbSlots_skipped slots conditional passes fetched,
          unreadable_from inside passes fetched, and_iff_right breakpoint]
        by_cases last : itAdvance it = 0
        · rw [if_pos last]
          exact iff_of_true (lands_stop (even_next first even) (.inl last))
            (.inr (passable_executed (.inl last)))
        · rw [if_neg last]
          obtain ⟨next, base⟩ := later_slot conditional passes last
          exact ih (even_next first even) last next (slots_left ends.2 last) (by rwa [base])

theorem skipThumbSlots_lands_iff (even : start &&& 1 = 0) (inside : it ≠ 0)
    (conditional : it / 16 < 15) :
    Lands memory after start it (skipThumbSlots memory flags 4 start it) ↔
      Unreadable memory flags start it ∨
        conditionPassed (it / 32 * 2) after = conditionPassed (it / 32 * 2) flags ∧
          Passable memory after start it := by
  have ends : 0 < 4 ∧ it * 2 ^ 4 % 16 = 0 := ⟨by decide, by omega⟩
  by_cases same : conditionPassed (it / 32 * 2) after = conditionPassed (it / 32 * 2) flags
  · rw [skipThumbSlots_same 4 even inside conditional ends same]
    simp [same]
  rw [← skipThumbSlots_refused_iff 4 even inside conditional ends]
  simp only [same, false_and, or_false]
  refine or_iff_left ?_
  rintro ⟨address, state, walk, stops, trap⟩
  -- the first slot is passed over by one of the two walks only
  have differ := mt (conditionPassed_slot conditional).mp same
  cases passes : conditionPassed (it / 16) flags with
  | false =>
    rw [passes, Bool.not_eq_false] at differ
    obtain ⟨distance, ahead, high, moved⟩ := skipThumbSlots_ahead 4 even conditional trap
    rw [(skips_executed (.inr differ) walk).1] at ahead
    exact ne_ahead (moved passes (by decide)) high ahead.symm
  | true =>
    rw [passes, Bool.not_eq_true] at differ
    rw [skipThumbSlots_executed 3 conditional passes, insert_even even] at trap
    cases trap
    rw [skips_back walk] at stops
    simp [inside, differ] at stops

end Slots

/-- What the planner refuses before it walks: a processor state, a wait while peers are held, an
exclusive load, a misplaced branch, and an executed instruction without a plan. -/
def Guarded (core : CoreRegisters) (holdPeers : Bool) (first second : Halfword) : Prop :=
  uvdbStepCpsrStateSupported core.cpsr = false ∨
  holdPeers = true ∧ uvdbStepInstructionMayBlock (second ++ first) true = true ∨
  thumbSize first = 4 ∧ uvdbThumb32InstructionStartsExclusive first second = true ∨
  uvdbThumbItStepPlacementValid first second (thumbSize first) (itState core.cpsr) = false ∨
  thumbExecutes core.cpsr = true ∧
    (uvdbThumb16PlanDirectStep first (core.r 15) core.cpsr core.r = .refused ∨
      thumbSize first = 4 ∧ uvdbThumb32InstructionMayWritePc first second = true)

section Passive
variable {f s : Halfword} {pc : Word}

section Wide
variable (even : pc &&& 1 = 0) (passive : ¬Thumb32WritesPC f s)
include even passive

theorem uvdbThumb32PlanBranchStep_passive (cpsr : Word) :
    uvdbThumb32PlanBranchStep f s pc cpsr = .unknown := by
  have top : s &&& 0x8000 = 0 ↔ ¬bits s 15 15 = 1 := by
    rw [← not_iff_not, not_not]
    exact and_two_pow_ne_zero_iff s (by decide : 15 < 16)
  have hw : s &&& 0x1000 ≠ 0 ↔ bits s 12 12 = 1 :=
    and_two_pow_ne_zero_iff s (by decide : 12 < 16)
  rw [Thumb32WritesPC] at passive
  rw [uvdbThumb32PlanBranchStep, if_neg (not_not.mpr even)]
  split
  · rfl
  next hfa =>
  rw [ne_eq, wideFamily_iff, top, not_or, not_not, not_not] at hfa
  split
  · next hf =>
    rw [hw, exchangeForm_iff] at hf
    grind
  split
  · next hf =>
    rw [conditionalForm_iff, ne_eq, conditionField_iff] at hf
    grind
  · rfl

theorem uvdbThumb32PlanLoadPcAddress_passive (registers : Registers) :
    uvdbThumb32PlanLoadPcAddress f s pc registers = .unknown := by
  rw [Thumb32WritesPC] at passive
  simp only [uvdbThumb32PlanLoadPcAddress]
  rw [if_neg (not_not.mpr even)]
  split
  · rfl
  next hf =>
  rw [loadFamily_iff] at hf
  grind

/-- A wide instruction that does not write the program counter is refused or left to the
sequential step. -/
theorem insertThumb32_passive (memory : Memory) (core : CoreRegisters) (i : ℕ) :
    insertThumb32 memory f s pc core i =
      if uvdbThumb32InstructionMayWritePc f s then some .refused else none := by
  have ht : ¬(f &&& 0xfff0 = 0xe8d0 ∧ s &&& 0xffe0 = 0xf000) := by
    rw [tableBranch_iff]
    exact fun hf => passive (.inr (.inl hf))
  have ha : ¬(f &&& 0xffd0 = 0xe890 ∧ s &&& 0x8000 ≠ 0) := by
    rw [loadMultiple_iff f s 0xe890 0x3a2 rfl]
    exact fun hf => passive (.inr (.inr (.inl ⟨.inl hf.1, hf.2⟩)))
  have hb : ¬(f &&& 0xffd0 = 0xe910 ∧ s &&& 0x8000 ≠ 0) := by
    rw [loadMultiple_iff f s 0xe910 0x3a4 rfl]
    exact fun hf => passive (.inr (.inr (.inl ⟨.inr hf.1, hf.2⟩)))
  simp only [insertThumb32, uvdbThumb32PlanBranchStep_passive even passive, ht, ha, hb, if_false,
    uvdbThumb32PlanLoadPcAddress_passive even passive]

end Wide

variable (m : Memory) (core : CoreRegisters) (i : ℕ)

theorem thumbWritesPC_of_narrow (hw : Thumb16WritesPC f) : ThumbWritesPC f s := by
  have hn : ¬29 ≤ bits f 15 11 := by
    rw [Thumb16WritesPC] at hw
    simp only [bits] at hw ⊢
    omega
  rwa [ThumbWritesPC, if_neg hn]

variable (pc) in
theorem directStep_passive (hp : ¬ThumbWritesPC f s) :
    uvdbThumb16PlanDirectStep f pc core.cpsr core.r = .refused ∨
      uvdbThumb16PlanDirectStep f pc core.cpsr core.r = .unknown := by
  cases hd : uvdbThumb16PlanDirectStep f pc core.cpsr core.r with
  | refused => exact .inl rfl
  | unknown => exact .inr rfl
  | planned target =>
    have hc := StepClassifiers.uvdbThumb16PlanDirectStep_classified hd
    exact absurd (thumbWritesPC_of_narrow (StepClassifiers.mayWritePc16_iff.mp hc)) hp

theorem ifThen_masks : (f &&& 0xff00 = 0xbf00 ∧ f &&& 0x000f ≠ 0) ↔ IfThen f := by
  have hf : f &&& 0xff00 = 0xbf00 ↔ bits f 15 8 = 0xbf := by
    rw [ifThen_iff]
    simp only [bits]
    omega
  have hm : f &&& 0x000f = 0 ↔ bits f 3 0 = 0 := by
    rw [← BitVec.toNat_inj, toNat_lowMask f 0x000f 3 rfl]
    rfl
  rw [hf, ne_eq, hm, IfThen]

theorem insertThumbDecoded_passive (even : pc &&& 1 = 0) (hp : ¬ThumbWritesPC f s)
    (hpl : ¬IfThen f) :
    insertThumbDecoded m f s pc core i =
      if uvdbThumb16PlanDirectStep f pc core.cpsr core.r = .refused ∨
        thumbSize f = 4 ∧ uvdbThumb32InstructionMayWritePc f s = true then .refused
      else insertThumbNext m f pc core i := by
  have hb : ¬(f &&& 0xff00 = 0xbf00 ∧ f &&& 0x000f ≠ 0 ∧ f &&& 0x00f0 ≠ 0x00f0) :=
    fun ho => hpl (ifThen_masks.mp ⟨ho.1, ho.2.1⟩)
  have pop : ¬f &&& 0xff00 = 0xbd00 := by
    intro hpo
    have hwr : Thumb16WritesPC f := by
      rw [pop_iff] at hpo
      rw [Thumb16WritesPC]
      simp only [bits] at hpo ⊢
      omega
    exact hp (thumbWritesPC_of_narrow hwr)
  simp only [insertThumbDecoded, hb, pop, if_false]
  rcases directStep_passive pc core hp with refused | unknown
  · simp only [refused, true_or, ↓reduceIte]
  simp only [unknown, reduceCtorEq, false_or, thumbSize_eq]
  by_cases wide : 29 ≤ bits f 15 11
  · rw [ThumbWritesPC, if_pos wide] at hp
    simp only [wide, ↓reduceIte, insertThumb32_passive even hp, true_and]
    cases uvdbThumb32InstructionMayWritePc f s <;> rfl
  · have narrow : uvdbThumb16InstructionMayWritePc f = false := by
      rw [ThumbWritesPC, if_neg wide] at hp
      rw [← Bool.not_eq_true, StepClassifiers.mayWritePc16_iff]
      exact hp
    simp [wide, narrow]

theorem skipped_iff (cpsr : Word) : (itState cpsr ≠ 0 ∧
    uvdbArmConditionPassed (itState cpsr >>> 4) cpsr = false) ↔ thumbExecutes cpsr = false := by
  have small := itState_lt cpsr
  rw [thumbExecutes, Nat.shiftRight_eq_div_pow]
  by_cases conditional : itState cpsr / 2 ^ 4 < 15
  · rw [uvdbArmConditionPassed_eq cpsr conditional, decide_eq_true conditional]
    simp
  · rw [show itState cpsr / 2 ^ 4 = 15 by omega]
    simp [show uvdbArmConditionPassed 15 cpsr = false from rfl]

section Core
variable {holdPeers : Bool} (supported : uvdbStepCpsrStateSupported core.cpsr = true)
variable (passive : ¬ThumbWritesPC f s)
include supported passive

/-- In a slot, a step that is not refused is sequential, whether the slot is executed or not. -/
theorem insertThumbStep_slot (even : core.r 15 &&& 1 = 0) (inside : itState core.cpsr ≠ 0)
    (plain : ¬IfThen f) :
    Guarded core holdPeers f s ∧
        insertThumbStep m f s (core.r 15) core holdPeers = .refused ∨
      ¬Guarded core holdPeers f s ∧ insertThumbStep m f s (core.r 15) core holdPeers =
        breakpointInsertAfterThumbIt m core.cpsr (core.r 15) (thumbSize f)
          (itState core.cpsr) := by
  have next : insertThumbNext m f (core.r 15) core (itState core.cpsr) =
      breakpointInsertAfterThumbIt m core.cpsr (core.r 15) (thumbSize f) (itState core.cpsr) :=
    if_pos inside
  rw [insertThumbStep, itstateFromCpsr_eq]
  simp only [skipped_iff, insertThumbDecoded_passive m core _ even passive plain, next,
    Bool.not_eq_true']
  split
  · next blocks => exact .inl ⟨.inr (.inl blocks), rfl⟩
  next runs =>
  split
  · next exclusive => exact .inl ⟨.inr (.inr (.inl exclusive)), rfl⟩
  next single =>
  split
  · next misplaced => exact .inl ⟨.inr (.inr (.inr (.inl misplaced))), rfl⟩
  next placed =>
  have free (planned : ¬(thumbExecutes core.cpsr = true ∧
      (uvdbThumb16PlanDirectStep f (core.r 15) core.cpsr core.r = .refused ∨
        thumbSize f = 4 ∧ uvdbThumb32InstructionMayWritePc f s = true))) :
      ¬Guarded core holdPeers f s := by
    simp only [Guarded, supported, runs, single, placed, planned, Bool.true_eq_false, or_self,
      not_false_eq_true]
  split
  · next skipped => exact .inr ⟨free (by simp [skipped]), rfl⟩
  next executes =>
  rw [Bool.not_eq_false] at executes
  split
  · next refused => exact .inl ⟨.inr (.inr (.inr (.inr ⟨executes, refused⟩))), rfl⟩
  · next planned => exact .inr ⟨free fun both => planned both.2, rfl⟩

theorem insertThumbStep_block (outside : itState core.cpsr = 0) (opens : IfThen f)
    (conditional : bits f 7 4 ≠ 15) :
    Guarded core holdPeers f s ∧
        insertThumbStep m f s (core.r 15) core holdPeers = .refused ∨
      ¬Guarded core holdPeers f s ∧ insertThumbStep m f s (core.r 15) core holdPeers =
        skipThumbSlots m core.cpsr 4 (core.r 15 + 2) (bits f 7 0) := by
  have narrow : thumbSize f = 2 := by
    have form := opens.1
    rw [thumbSize_eq, if_neg]
    simp only [bits] at form ⊢
    omega
  have mask : f &&& 0x00f0 ≠ 0x00f0 := by
    rw [ne_eq, mask_eq_iff f _ _ [(4, 4)] (by decide) (by decide)]
    simp only [fieldsOf, bits] at conditional ⊢
    change ¬_ = 0x00f0
    omega
  have masks := ifThen_masks.mpr opens
  have executes : thumbExecutes core.cpsr = true := by simp [thumbExecutes, outside]
  have valid : uvdbThumbItStepPlacementValid f s 2 0 = true := rfl
  have decoded (unknown : uvdbThumb16PlanDirectStep f (core.r 15) core.cpsr core.r = .unknown) :
      insertThumbDecoded m f s (core.r 15) core 0 =
        skipThumbSlots m core.cpsr 4 (core.r 15 + 2) (bits f 7 0) := by
    rw [insertThumbDecoded, unknown, ← toNat_lowMask f 0xff 7 rfl]
    exact if_pos ⟨masks.1, masks.2, mask⟩
  simp only [insertThumbStep, itstateFromCpsr_eq, Guarded, supported, outside, narrow, valid,
    executes]
  by_cases blocks : holdPeers = true ∧ uvdbStepInstructionMayBlock (s ++ f) true = true
  · simp [blocks]
  rcases directStep_passive (core.r 15) core passive with refused | unknown
  · simp [blocks, refused, insertThumbDecoded]
  · simp [blocks, unknown, decoded unknown]

end Core

end Passive

/-- Where the walk behind a stepped instruction starts: at the next slot of the block the
instruction is in, or at the first one of the block it opens. -/
inductive Entered (core : CoreRegisters) (first : Halfword) : Word → ℕ → Prop
  | slot (inside : itState core.cpsr ≠ 0) (plain : ¬IfThen first) :
      Entered core first (core.r 15 + BitVec.ofNat 32 (thumbLength first))
        (itAdvance (itState core.cpsr))
  | block (outside : itState core.cpsr = 0) (opens : IfThen first) :
      Entered core first (core.r 15 + BitVec.ofNat 32 2) (bits first 7 0)

section Step
variable {memory : Memory} {core : CoreRegisters} {holdPeers : Bool} {first second : Halfword}
variable {after start : Word} {it : ℕ}

/-- A step in or into an IT block is refused or its trap is where execution next goes on, exactly
when the planner refuses the instruction or cannot read a slot, or the flags the instruction leaves
agree with those of the stop on the block's condition and no slot passed over is a breakpoint. -/
theorem it_block_step (thumb : bits core.cpsr 5 5 = 1) (even : core.r 15 &&& 1 = 0)
    (fetched : readHalfword memory (core.r 15) = some first)
    (rest : if 29 ≤ bits first 15 11 then readHalfword memory (core.r 15 + 2) = some second
      else second = 0)
    (passive : ¬ThumbWritesPC first second) (entered : Entered core first start it)
    (conditional : it / 16 < 15) :
    Lands memory after start it (breakpointInsertStep memory core holdPeers) ↔
      Guarded core holdPeers first second ∨ Unreadable memory core.cpsr start it ∨
        (it ≠ 0 →
          conditionPassed (it / 32 * 2) after = conditionPassed (it / 32 * 2) core.cpsr) ∧
        Passable memory after start it := by
  rw [breakpointInsertStep_thumb memory core holdPeers thumb fetched rest]
  cases supported : uvdbStepCpsrStateSupported core.cpsr with
  | false => exact iff_of_true (.inl rfl) (.inl (.inl supported))
  | true =>
  rw [if_pos rfl]
  cases entered with
  | slot inside plain =>
    have next := even_next first even
    rcases insertThumbStep_slot memory core supported passive even inside plain with
      ⟨guarded, refused⟩ | ⟨free, walked⟩
    · exact iff_of_true (.inl refused) (.inl guarded)
    rw [walked, thumbSize_eq, ← thumbLength, breakpointInsertAfterThumbIt,
      itstateAdvance_eq (itState_lt core.cpsr), or_iff_right free]
    by_cases last : itAdvance (itState core.cpsr) = 0
    · simp only [last, ↓reduceIte]
      exact iff_of_true (lands_stop next (.inl rfl))
        (.inr ⟨fun inside => absurd rfl inside, passable_executed (.inl rfl)⟩)
    · simp only [last, ↓reduceIte, not_false_eq_true, forall_const, ne_eq]
      exact skipThumbSlots_lands_iff next last conditional
  | block outside opens =>
    have mask : bits first 7 0 ≠ 0 := by
      have slots := opens.2
      simp only [bits] at slots ⊢
      omega
    have field : bits first 7 4 ≠ 15 := by
      simp only [bits] at conditional ⊢
      omega
    rcases insertThumbStep_block memory core supported passive outside opens field with
      ⟨guarded, refused⟩ | ⟨free, walked⟩
    · exact iff_of_true (.inl refused) (.inl guarded)
    rw [walked, or_iff_right free]
    simp only [mask, ne_eq, not_false_eq_true, forall_const]
    exact skipThumbSlots_lands_iff (even_add even rfl) mask conditional

end Step

/-- `cmpeq r0, r1`, `addeq r2, #1` and `nop` at `0x81000000`. -/
def comparingMemory : Memory := fun address =>
  match address.toNat with
  | 0x81000000 => some 0x88
  | 0x81000001 => some 0x42
  | 0x81000002 => some 0x01
  | 0x81000003 => some 0x32
  | 0x81000004 => some 0x00
  | 0x81000005 => some 0xbf
  | _ => none

/-- Stopped in the first slot of `itt eq` with the zero flag set. -/
def comparingCore (r0 : Word) : CoreRegisters :=
  ⟨fun n => if n = 15 then 0x81000000 else if n = 0 then r0 else 0, 0x40000430⟩

/-- With equal operands the comparison keeps the zero flag. -/
theorem it_block_step_equal : Entered (comparingCore 0) 0x4288 0x81000002 8 ∧
      Lands comparingMemory (compareFlags 0 0 0x40000430) 0x81000002 8
        (breakpointInsertStep comparingMemory (comparingCore 0) true) := by
  have passes : conditionPassed (8 / 16) (compareFlags 0 0 0x40000430) = true := by decide
  have entered : Entered (comparingCore 0) 0x4288 0x81000002 8 := .slot (by decide) (by decide)
  have fetched : readHalfword comparingMemory ((comparingCore 0).r 15) = some 0x4288 := by decide
  have passive : ¬ThumbWritesPC 0x4288 0 := by decide
  refine ⟨entered, (it_block_step (by decide) (by decide) fetched (by decide) passive entered
    (by decide)).mpr (.inr (.inr ⟨fun _ => by decide, ?_⟩))⟩
  exact passable_executed (.inr passes)

/-- With different operands the comparison clears the zero flag: the trap is set on the second slot,
which the processor then passes over. -/
theorem it_block_step_missed :
    Entered (comparingCore 1) 0x4288 0x81000002 8 ∧ ¬ThumbWritesPC 0x4288 0 ∧
      (∀ holdPeers, breakpointInsertStep comparingMemory (comparingCore 1) holdPeers =
        .trap 0x81000002 2) ∧
      Skips comparingMemory (compareFlags 1 0 0x40000430) 0x81000002 8 0x81000004 0 ∧
      ¬Lands comparingMemory (compareFlags 1 0 0x40000430) 0x81000002 8 (.trap 0x81000002 2) := by
  have fails : conditionPassed (8 / 16) (compareFlags 1 0 0x40000430) = false := by decide
  have slot : readHalfword comparingMemory 0x81000002 = some 0x3201 := by decide
  refine ⟨.slot (by decide) (by decide), by decide, by decide, ?_, ?_⟩
  · exact .slot .start (by decide) (by decide) fails slot (by decide)
  rw [lands_later (by decide) fails slot (by decide) (by decide)]
  rintro (refused | ⟨address, state, walk, -, trap⟩)
  · cases refused
  cases trap
  exact absurd (skips_executed (.inl rfl) walk).1 (by decide)

end VitaDebugger.ItBlockStep
