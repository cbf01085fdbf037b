import VitaDebugger.StepEscape

/-! Steps over ARM words that do not write the program counter: the trap is at the next word,
unless the masks of the planners take the word for one that does. -/

namespace VitaDebugger.OrdinaryStep
open BitField ArmArchitecture StepPlanner StepInsertion StepFields StepClassifiers

section Words
variable {memory : Memory} {x pc : Word} {core : CoreRegisters}

theorem next_ne (pc : Word) : pc + 4 ≠ pc := by
  intro hs
  have hn := congrArg BitVec.toNat hs
  change (pc.toNat + 4) % 2 ^ 32 = pc.toNat at hn
  omega

theorem sequential_trap (ha : pc &&& 3 = 0) :
    breakpointInsertInternal (pc + 4) 4 = .trap (pc + 4) 4 := by
  have hn : StepTraps.Successor.Aligned ⟨pc + 4, .arm⟩ := ArmStep.aligned_add 1 ha
  exact StepTraps.breakpointInsertInternal_aligned hn

theorem sequential_plan (ha : pc &&& 3 = 0) :
    setArmStepTarget (pc + 4) false pc = .planned ⟨pc + 4, 4⟩ := by
  rw [ArmStep.setArmStepTarget_next ha, planFor, if_neg (next_ne pc)]
  rfl

theorem not_branch (hs : ¬ArmWritesPC x) : bits x 27 25 ≠ 5 := by
  intro hb
  apply hs
  rw [ArmWritesPC]
  split
  · exact .inl hb
  · exact .inl hb

theorem conditionPassed_eq_executes (conditional : bits x 31 28 ≠ 15) :
    uvdbArmConditionPassed (bits x 31 28) core.cpsr = armExecutes core.cpsr x := by
  have field : bits x 31 28 < 16 := bits_lt x 31 28
  rw [uvdbArmConditionPassed_eq core.cpsr (by omega), armExecutes, decide_eq_false conditional,
    Bool.false_or]

theorem loadMultipleWithPC_iff : x &&& 0x0e108000 = 0x08108000 ↔
    bits x 27 25 = 4 ∧ bits x 20 20 = 1 ∧ bits x 15 15 = 1 :=
  and_eq_iff x [(27, 25, 4), (20, 20, 1), (15, 15, 1)] (by decide)

section
variable (aligned : pc &&& 3 = 0)
include aligned

/-- The comparisons and the miscellaneous encodings among the operations have no plan. -/
theorem planArmDataProcessingPcStep_ordinary (core : CoreRegisters) (stays : ¬ArmWritesPC x) :
    planArmDataProcessingPcStep x pc core.cpsr core.r = .unknown ∨
      armExecutes core.cpsr x = false ∧
        planArmDataProcessingPcStep x pc core.cpsr core.r = .planned ⟨pc + 4, 4⟩ := by
  refine or_iff_not_imp_left.mpr fun known => ?_
  have fields := planArmDataProcessingPcStep_known known
  have compares : 8 ≤ bits x 24 21 ∧ bits x 24 21 ≤ 11 := by
    rw [ArmWritesPC, if_neg fields.1] at stays
    omega
  simp only [planArmDataProcessingPcStep, toNat_condition] at known ⊢
  split at known
  · exact absurd rfl known
  next form =>
  rw [if_neg form]
  split at known
  · next fails =>
    rw [if_pos fails, sequential_plan aligned]
    rw [conditionPassed_eq_executes fields.1, Bool.not_eq_true'] at fails
    exact ⟨fails, rfl⟩
  · rw [planArmDataProcessingResult, toNat_shiftMask x 0xf 24 21 rfl, if_pos (.inl compares)]
      at known
    exact absurd rfl known

theorem uvdbArmPlanDirectStep_ordinary (core : CoreRegisters) (stays : ¬ArmWritesPC x) :
    uvdbArmPlanDirectStep x pc core.cpsr core.r = .unknown ∨
      armExecutes core.cpsr x = false ∧
        uvdbArmPlanDirectStep x pc core.cpsr core.r = .planned ⟨pc + 4, 4⟩ := by
  have hmo := register_iff x 0x1a0f00 (by decide)
  have hex := register_iff x 0x12fff1 (by decide)
  have hli := register_iff x 0x12fff3 (by decide)
  have hb := not_branch stays
  have hs : ∀ t, (x &&& 0x0ffffff0 = 0x01a0f000 ∨ x &&& 0x0ffffff0 = 0x012fff10 ∨
      x &&& 0x0ffffff0 = 0x012fff30) → conditionally x pc core.cpsr t = .unknown := by
    intro t hfo
    apply ArmStep.conditionally_unconditional
    by_contra hc
    apply stays
    rw [ArmWritesPC, if_neg hc]
    rcases hfo with hm | hp | hl
    · have hf := hmo.mp hm
      simp only [bits] at hf ⊢
      omega
    · exact .inr (.inl (hex.mp hp))
    · exact .inr (.inr (.inr (.inl (hli.mp hl))))
  simp only [uvdbArmPlanDirectStep, aligned, exchangeImmediate_iff, branch_iff, hb, and_false,
    ne_eq, not_true_eq_false, ↓reduceIte]
  split
  · next hm => exact .inl (hs _ (.inl hm))
  split
  · next he => exact .inl (hs _ (.inr he))
  · exact planArmDataProcessingPcStep_ordinary aligned core stays

/-- A byte load has no planned address, nor has a media word, for its bit 4 is set. -/
theorem uvdbArmPlanLoadPcAddress_ordinary (core : CoreRegisters) (stays : ¬ArmWritesPC x) :
    uvdbArmPlanLoadPcAddress x pc core.cpsr core.r = .unknown ∨
      (armExecutes core.cpsr x = true ∧ TakenForWriter x) ∧
        uvdbArmPlanLoadPcAddress x pc core.cpsr core.r = .refused := by
  have byte : x &&& 0x00400000 = 0 ↔ ¬bits x 22 22 = 1 :=
    (not_iff_comm.mp (and_two_pow_ne_zero_iff x (by decide : 22 < 32))).symm
  have offset : (x &&& 0x02000000 != 0) = decide (bits x 25 25 = 1) :=
    and_two_pow_bne x (by decide : 25 < 32)
  have fourth : x &&& 0x10 ≠ 0 ↔ bits x 4 4 = 1 := and_two_pow_ne_zero_iff x (by decide : 4 < 32)
  simp only [uvdbArmPlanLoadPcAddress, aligned, toNat_condition, load_iff, ne_eq,
    not_true_eq_false, ↓reduceIte, byte, offset, decodeArmImmediateShiftRegister]
  split
  · exact .inl rfl
  next form =>
  rw [not_or, not_not] at form
  split
  · exact .inl rfl
  next passes =>
  refine .inr ⟨⟨?_, form.1, form.2.2.2, .inl ⟨form.2.1, form.2.2.1⟩⟩, ?_⟩
  · simpa [conditionPassed_eq_executes form.1] using passes
  split
  · rfl
  next word =>
  split
  · rfl
  have media : bits x 25 25 = 1 ∧ bits x 4 4 = 1 := by
    have high : bits x 25 25 < 2 := bits_lt x 25 25
    have low : bits x 4 4 < 2 := bits_lt x 4 4
    have wide : bits x 22 22 < 2 := bits_lt x 22 22
    rw [ArmWritesPC, if_neg form.1] at stays
    omega
  simp only [media, decide_true, fourth.mpr media.2, not_false_eq_true, ↓reduceIte, ite_self]

theorem insertArmLoadMultiple_ordinary (stays : ¬ArmWritesPC x)
    (fields : bits x 27 25 = 4 ∧ bits x 20 20 = 1 ∧ bits x 15 15 = 1) :
    insertArmLoadMultiple memory x pc core = .trap (pc + 4) 4 := by
  have special : bits x 31 28 = 15 := by
    by_contra conditional
    apply stays
    rw [ArmWritesPC, if_neg conditional]
    exact .inr (.inr (.inr (.inr (.inr (.inl fields)))))
  have fails : uvdbArmConditionPassed 15 core.cpsr = false := rfl
  simp only [insertArmLoadMultiple, toNat_condition, special, fails, Bool.not_false, ↓reduceIte,
    sequential_trap aligned]

theorem insertArmStep_ordinary {holdPeers : Bool}
    (stays : ¬ArmWritesPC x) (runs : ¬ArmWaits x) (single : ¬ArmLoadsExclusive x) :
    insertArmStep memory x pc core holdPeers =
      if (armExecutes core.cpsr x = true ∧ TakenForWriter x) ∨
          (holdPeers = true ∧ bits x 31 28 = 15 ∧
            (bits x 27 0 = 0x320f002 ∨ bits x 27 0 = 0x320f003)) then .refused
      else .trap (pc + 4) 4 := by
  have simple : uvdbArmInstructionStartsExclusive x = false := by
    rw [← Bool.not_eq_true, startsExclusive_iff]
    exact single
  have planned : insertPlanned ⟨pc + 4, 4⟩ = .trap (pc + 4) 4 := sequential_trap aligned
  simp only [insertArmStep, simple, mayBlock_iff, runs, false_or, Bool.false_eq_true, ↓reduceIte]
  split
  · next blocks => rw [if_pos (.inr blocks)]
  next free =>
  rcases uvdbArmPlanDirectStep_ordinary aligned core stays with unknown | ⟨skipped, next⟩
  · simp only [unknown, loadMultipleWithPC_iff, free, or_false]
    split
    · next fields =>
      rw [insertArmLoadMultiple_ordinary aligned stays fields, if_neg]
      rintro ⟨-, -, -, form⟩
      simp only [bits] at fields form
      omega
    rcases uvdbArmPlanLoadPcAddress_ordinary aligned core stays with
      unplanned | ⟨taken, refused⟩
    · simp only [unplanned, mayWritePc_iff, stays, false_or, toNat_condition]
      by_cases taken : TakenForWriter x
      · rw [conditionPassed_eq_executes taken.1, if_pos taken, sequential_trap aligned]
        cases armExecutes core.cpsr x <;> simp [taken, taken.1]
      · simp only [taken, and_false, ↓reduceIte, sequential_trap aligned]
    · rw [refused, if_pos taken]
  · simp only [next, planned, skipped, Bool.false_eq_true, false_and, false_or, free, ↓reduceIte]

end

end Words

/-- A step over a word that writes no program counter, neither waits nor begins an exclusive
access: the trap is at the next word exactly when the masks take the word for none that does. -/
theorem ordinary_arm_step (memory : Memory) (core : CoreRegisters) (holdPeers : Bool) {x : Word}
    (arm : bits core.cpsr 5 5 = 0) (aligned : (core.r 15).toNat % 4 = 0)
    (fetched : readWord memory (core.r 15) = some x)
    (stays : ¬ArmWritesPC x) (runs : ¬ArmWaits x) (single : ¬ArmLoadsExclusive x) :
    breakpointInsertStep memory core holdPeers = .trap (core.r 15 + 4) 4 ↔
      (bits core.cpsr 24 24 = 0 ∧ bits core.cpsr 9 9 = 0) ∧
      (armExecutes core.cpsr x = true → ¬TakenForWriter x) ∧
      ¬(holdPeers = true ∧ bits x 31 28 = 15 ∧
        (bits x 27 0 = 0x320f002 ∨ bits x 27 0 = 0x320f003)) := by
  have hm : ¬core.cpsr &&& 32 ≠ 0 := by
    rw [show (32 : Word) = BitVec.ofNat 32 (2 ^ 5) from rfl,
      and_two_pow_ne_zero_iff core.cpsr (by decide : 5 < 32)]
    omega
  have supported : uvdbStepCpsrStateSupported core.cpsr = true ↔
      bits core.cpsr 24 24 = 0 ∧ bits core.cpsr 9 9 = 0 := by
    rw [uvdbStepCpsrStateSupported, beq_iff_eq]
    exact and_eq_iff core.cpsr [(24, 24, 0), (9, 9, 0)] (by decide)
  rw [← supported]
  simp only [breakpointInsertStep, hm, ↓reduceIte, fetched,
    insertArmStep_ordinary ((and_three_iff _).mpr aligned) stays runs single]
  cases uvdbStepCpsrStateSupported core.cpsr with
  | false => simp
  | true => simp [not_or, imp_iff_not_or]

/-- Memory that repeats one word. -/
def wordMemory (x : Word) : Memory := fun address =>
  some ((x >>> (8 * (address.toNat % 4))).setWidth 8)

/-- `add r0, r0, #1` at `0x81000000`. -/
theorem ordinary_arm_step_add :
    breakpointInsertStep (wordMemory 0xe2800001) ⟨fun _ => 0x81000000, 0x10⟩ true =
      .trap 0x81000004 4 :=
  (ordinary_arm_step (wordMemory 0xe2800001) ⟨fun _ => 0x81000000, 0x10⟩ true (by decide)
    (by decide) (show _ = some 0xe2800001 by decide) (by decide) (by decide) (by decide)).mpr
    (by decide)

/-- The hints `nop`, `yield` and `sev`, a move to the flags, and a most significant word multiply
write no program counter, and yet their steps are refused. -/
theorem ordinary_arm_steps_refused :
    ([0xe320f000, 0xe320f001, 0xe320f004, 0xe128f000, 0xe750f110] : List Word).all (fun x =>
      decide ((¬ArmWritesPC x ∧ ¬ArmWaits x ∧ ¬ArmLoadsExclusive x) ∧
        readWord (wordMemory x) 0x81000000 = some x ∧
        breakpointInsertStep (wordMemory x) ⟨fun _ => 0x81000000, 0x10⟩ false = .refused)) =
        true := by
  decide +kernel

end VitaDebugger.OrdinaryStep
