import VitaDebugger.StepFields

/-! The direct plan of an ARM step is the architectural successor. -/

namespace VitaDebugger.ArmStep
open BitField ArmArchitecture StepPlanner StepFields BitVec DataOperation

section DirectStep
variable {x pc : Word} (cpsr : Word) (rs : Registers)

theorem aligned_add {a : Word} (n : ℕ) (ha : a &&& 3 = 0) :
    (a + BitVec.ofNat 32 (4 * n)) &&& 3 = 0 := by
  rw [and_three_iff] at ha ⊢
  rw [toNat_add, toNat_ofNat]
  omega

section
variable (a : pc &&& 3 = 0)
include a

theorem clearLow_ahead : clearLow 2 (pc + 8) = pc + 8 :=
  clearLow_of_aligned ((and_three_iff _).mp (aligned_add 2 a))

theorem setArmStepTarget_next :
    setArmStepTarget (pc + 4) false pc = planFor pc (some ⟨pc + 4, .arm⟩) := by
  have hn : pc + 4 &&& 3 = 0 := aligned_add 1 a
  rw [setArmStepTarget_arm pc hn, branchWritePC, clearLow_of_aligned ((and_three_iff _).mp hn)]

theorem conditionally_eq {t : Plan StepTarget} (hc : bits x 31 28 ≠ 15)
    (he : t = planFor pc (armTransfer pc cpsr rs (decodeArm x))) :
    conditionally x pc cpsr t = planFor pc (armSuccessor pc cpsr rs x) := by
  have hf : bits x 31 28 < 16 := bits_lt x 31 28
  have ha := uvdbArmConditionPassed_eq cpsr (show bits x 31 28 < 15 by omega)
  simp only [conditionally, armSuccessor, toNat_condition, ha, he, setArmStepTarget_next a]
  cases conditionPassed (bits x 31 28) cpsr with
  | true => simp [hc]
  | false => simp [hc]

theorem conditionally_unknown (hc : bits x 31 28 ≠ 15) :
    conditionally x pc cpsr .unknown = planFor pc (armSuccessor pc cpsr rs x) ∨
      conditionally x pc cpsr .unknown = .unknown := by
  have hf : bits x 31 28 < 16 := bits_lt x 31 28
  have ha := uvdbArmConditionPassed_eq cpsr (show bits x 31 28 < 15 by omega)
  simp only [conditionally, armSuccessor, toNat_condition, ha, setArmStepTarget_next a]
  cases conditionPassed (bits x 31 28) cpsr with
  | true => exact Or.inr (by simp)
  | false => exact Or.inl (by simp [hc])

end

theorem conditionally_unconditional {t : Plan StepTarget} (hs : bits x 31 28 = 15) :
    conditionally x pc cpsr t = .unknown := by
  unfold conditionally
  rw [toNat_condition]
  exact if_pos hs

theorem toNat_offset : ((x &&& 0x00ffffff) <<< 2).toNat = bits x 23 0 * 4 := by
  have hs : bits x 23 0 < 2 ^ 24 := bits_lt x 23 0
  rw [toNat_shiftLeft, toNat_lowMask x _ 23 rfl, Nat.shiftLeft_eq]
  omega

theorem toNat_exchangeOffset :
    ((x &&& 0x00ffffff) <<< 2 ||| (x >>> 23 &&& 2)).toNat = bits x 23 0 * 4 + bits x 24 24 * 2 := by
  have hh : (x >>> 23 &&& 2).toNat = bits x 24 24 * 2 := by
    rw [toNat_and_mask (x >>> 23) 2 [(1, 1)] (by decide) (by decide), toNat_ushiftRight,
      Nat.shiftRight_eq_div_pow]
    simp only [fieldsOf, bits]
    omega
  have low : bits x 24 24 * 2 < 2 ^ 2 := by
    have bit : bits x 24 24 < 2 := bits_lt x 24 24
    omega
  rw [toNat_or, toNat_offset, hh, Nat.mul_comm (bits x 23 0)]
  exact (Nat.two_pow_add_eq_or_of_lt low _).symm

theorem aligned_branch {o : ℕ} (ha : pc &&& 3 = 0) :
    (pc + 8 + (BitVec.ofNat 26 (o * 4)).signExtend 32) &&& 3 = 0 := by
  rw [and_three_iff] at ha ⊢
  rw [toNat_add, toNat_add, toNat_signExtend, toNat_setWidth,
    toNat_ofNat, show (8 : Word).toNat = 8 from rfl]
  split <;> omega

theorem armTransfer_branch {e : Word} (ha : pc &&& 3 = 0)
    (hc : bits x 31 28 ≠ 15) (hb : bits x 27 25 = 5)
    (ho : e.toNat = bits x 23 0 * 4) :
    setArmStepTarget (pc + 8 + signExtendU32 e 26) false pc =
      planFor pc (armTransfer pc cpsr rs (decodeArm x)) := by
  have hs : bits x 23 0 < 2 ^ 24 := bits_lt x 23 0
  have he := signExtendU32_eq (show e.toNat < 2 ^ (25 + 1) by omega) (by decide)
  rw [he, ho, setArmStepTarget_arm pc (aligned_branch ha), decodeArm, if_neg hc]
  simp only [hb, armTransfer]

theorem armTransfer_branchLinkExchange {e : Word} (ha : pc &&& 3 = 0)
    (hs : bits x 31 28 = 15) (hb : bits x 27 25 = 5)
    (ho : e.toNat = bits x 23 0 * 4 + bits x 24 24 * 2) :
    setArmStepTarget (pc + 8 + signExtendU32 e 26) true pc =
      planFor pc (armTransfer pc cpsr rs (decodeArm x)) := by
  have hsm : bits x 23 0 < 2 ^ 24 := bits_lt x 23 0
  have bit : bits x 24 24 < 2 := bits_lt x 24 24
  have he := signExtendU32_eq (show e.toNat < 2 ^ (25 + 1) by omega) (by decide)
  rw [he, ho, setArmStepTarget_thumb, decodeArm, if_pos hs, if_pos hb,
    armTransfer, clearLow_ahead ha]

theorem armTransfer_branchExchange (hc : bits x 31 28 ≠ 15) (he : bits x 27 4 = 0x12fff1) :
    armTransfer pc cpsr rs (decodeArm x) =
      bxWritePC (armRegister pc rs (bits x 3 0)) := by
  have hf : bits x 27 25 = 0 := by
    simp only [bits] at he ⊢
    omega
  rw [decodeArm, if_neg hc]
  simp only [hf, he, if_true, armTransfer]

theorem armTransfer_branchLinkExchangeRegister (hc : bits x 31 28 ≠ 15)
    (he : bits x 27 4 = 0x12fff3) :
    armTransfer pc cpsr rs (decodeArm x) =
      if bits x 3 0 = 15 then none else bxWritePC (armRegister pc rs (bits x 3 0)) := by
  have hf : bits x 27 25 = 0 := by
    simp only [bits] at he ⊢
    omega
  have hu : ¬0x12fff3 = 0x12fff1 := by decide
  rw [decodeArm, if_neg hc]
  simp only [hf, he, hu, if_true, if_false, armTransfer]

theorem armTransfer_move (hc : bits x 31 28 ≠ 15) (hm : bits x 27 4 = 0x1a0f00) :
    armTransfer pc cpsr rs (decodeArm x) =
      bxWritePC (armRegister pc rs (bits x 3 0)) := by
  have hfi : bits x 27 25 = 0 ∧ bits x 24 21 = 13 ∧ bits x 20 20 = 0 ∧ bits x 15 12 = 15 ∧
      bits x 11 7 = 0 ∧ bits x 6 5 = 0 ∧ bits x 4 4 = 0 := by
    simp only [bits] at hm ⊢
    omega
  obtain ⟨hf, ho, hfl, rd, ha, hk, hr⟩ := hfi
  have hu : ¬0x1a0f00 = 0x12fff1 ∧ ¬0x1a0f00 = 0x12fff3 := by decide
  rw [decodeArm, if_neg hc]
  simp only [hf, hm, hu, hr, if_true, if_false, decodeDataProcessing, ho,
    ofCode, hfl, rd, armTransfer, decodeOperand, ha, hk, operandValue]
  simp [result, decodeImmShift, shift]

theorem family_iff (v : Word) : x >>> 25 &&& 7 = v ↔ bits x 27 25 = v.toNat := by
  rw [← toNat_inj, toNat_shiftMask x 7 27 25 rfl]

theorem destination_iff : x &&& 0x0000f000 = 0x0000f000 ↔ bits x 15 12 = 15 :=
  and_eq_iff x [(15, 12, 15)] (by decide)

theorem decodeArm_operation (hc : bits x 31 28 ≠ 15)
    (he : bits x 27 4 ≠ 0x12fff1) (hl : bits x 27 4 ≠ 0x12fff3)
    (hfa : bits x 27 25 = 1 ∨ bits x 27 25 = 0) :
    decodeArm x = if bits x 25 25 ≠ 1 ∧ bits x 4 4 = 1 then .other
      else decodeDataProcessing x (decide (bits x 25 25 = 1)) := by
  have hr : bits x 4 4 < 2 := bits_lt x 4 4
  rw [decodeArm, if_neg hc]
  rcases hfa with hi | hs
  · have hf : bits x 25 25 = 1 := by
      simp only [bits] at hi ⊢
      omega
    simp [hi, hf]
  have hf : bits x 25 25 = 0 := by
    simp only [bits] at hs ⊢
    omega
  simp only [hs, hf, he, hl, if_false]
  by_cases bit : bits x 4 4 = 0
  · simp [bit]
  · have set : bits x 4 4 = 1 := by omega
    simp [set]

theorem decodeArmOperand2_operation : decodeArmOperand2 x pc cpsr rs =
      if bits x 25 25 ≠ 1 ∧ bits x 4 4 = 1 then none
      else some (operandValue pc cpsr rs (decodeOperand x (decide (bits x 25 25 = 1)))) := by
  rw [decodeArmOperand2_eq]
  by_cases hf : bits x 25 25 = 1
  · simp [hf, decodeOperand]
  · by_cases hr : bits x 4 4 = 1
    · simp [hf, hr]
    · simp [hf, hr, decodeOperand]

theorem ofCode_isSome {o : ℕ} (hs : o < 16) (hw : ¬(8 ≤ o ∧ o ≤ 11)) :
    ∃ operation, ofCode o = some operation := by
  interval_cases o <;> first | exact ⟨_, rfl⟩ | exact absurd (by decide) hw

theorem ofCode_compare {o : ℕ} (low : 8 ≤ o) (hh : o ≤ 11) : ofCode o = none := by
  interval_cases o <;> rfl

variable (pc) in
theorem planArmDataProcessingResult_eq (hc : bits x 31 28 ≠ 15)
    (he : bits x 27 4 ≠ 0x12fff1) (hl : bits x 27 4 ≠ 0x12fff3)
    (hd : bits x 15 12 = 15) (hf : bits x 27 25 = 1 ∨ bits x 27 25 = 0) :
    planArmDataProcessingResult x pc cpsr rs =
        planFor pc (armTransfer pc cpsr rs (decodeArm x)) ∨
      planArmDataProcessingResult x pc cpsr rs = .unknown ∧
        (decodeArm x).branchesDirectly = false := by
  have hfl : x &&& 0x00100000 ≠ 0 ↔ bits x 20 20 = 1 :=
    and_two_pow_ne_zero_iff x (by decide : 20 < 32)
  rw [decodeArm_operation hc he hl hf]
  simp only [planArmDataProcessingResult, toNat_shiftMask x 0xf 24 21 rfl,
    toNat_shiftMask x 0xf 19 16 rfl, hfl, decodeArmOperand2_operation, shift_and_one,
    dataProcessingResult_eq]
  by_cases hof : 8 ≤ bits x 24 21 ∧ bits x 24 21 ≤ 11 ∨ bits x 20 20 = 1
  · refine Or.inr ⟨if_pos hof, ?_⟩
    split
    · rfl
    unfold decodeDataProcessing
    rcases hof with ⟨low, hh⟩ | hs
    · rw [ofCode_compare low hh]
      rfl
    · cases ofCode (bits x 24 21) with
      | none => rfl
      | some o => simp [ArmInstruction.branchesDirectly, hs]
  refine Or.inl ?_
  rw [if_neg hof]
  by_cases hr : bits x 25 25 ≠ 1 ∧ bits x 4 4 = 1
  · rw [if_pos hr, if_pos hr]
    rfl
  obtain ⟨o, hcd⟩ := ofCode_isSome (bits_lt x 24 21) (fun hco => hof (Or.inl hco))
  have hp : ¬bits x 20 20 = 1 := fun hs => hof (Or.inr hs)
  rw [if_neg hr, if_neg hr]
  simp only [decodeDataProcessing, hcd, Option.map_some, setArmStepTarget_exchange,
    armTransfer, hd, hp, decide_false]
  rfl

theorem decodeArm_family (hc : bits x 31 28 ≠ 15) (ho : bits x 27 25 ≠ 0)
    (hi : bits x 27 25 ≠ 1) (hs : bits x 27 25 ≠ 5) :
    (decodeArm x).branchesDirectly = false := by
  have hl (form : Bool) : (decodeLoad x form).branchesDirectly = false := by
    unfold decodeLoad
    split <;> rfl
  have hm : (decodeLoadMultiple x).branchesDirectly = false := by
    unfold decodeLoadMultiple
    split <;> rfl
  rw [decodeArm, if_neg hc]
  split
  · contradiction
  · contradiction
  · exact hl true
  · split
    · exact hl false
    · rfl
  · exact hm
  · contradiction
  · rfl

theorem decodeArm_destination (hc : bits x 31 28 ≠ 15)
    (he : bits x 27 4 ≠ 0x12fff1) (hl : bits x 27 4 ≠ 0x12fff3)
    (hs : bits x 27 25 ≠ 5) (hd : bits x 15 12 ≠ 15) :
    (decodeArm x).branchesDirectly = false := by
  by_cases hf : bits x 27 25 = 1 ∨ bits x 27 25 = 0
  · rw [decodeArm_operation hc he hl hf]
    split
    · rfl
    unfold decodeDataProcessing
    cases ofCode (bits x 24 21) with
    | none => rfl
    | some operation => simp [ArmInstruction.branchesDirectly, hd]
  · exact decodeArm_family hc (fun hz => hf (Or.inr hz)) (fun one => hf (Or.inl one)) hs

/-- Either the plan follows the architecture, or the instruction is left to others. -/
theorem planArmDataProcessingPcStep_eq (ha : pc &&& 3 = 0) (hc : bits x 31 28 ≠ 15)
    (he : bits x 27 4 ≠ 0x12fff1) (hl : bits x 27 4 ≠ 0x12fff3)
    (hs : bits x 27 25 ≠ 5) :
    planArmDataProcessingPcStep x pc cpsr rs =
        planFor pc (armSuccessor pc cpsr rs x) ∨
      planArmDataProcessingPcStep x pc cpsr rs = .unknown ∧
        (decodeArm x).branchesDirectly = false := by
  have hb : x &&& 0x10 ≠ 0 ↔ bits x 4 4 = 1 := and_two_pow_ne_zero_iff x (by decide : 4 < 32)
  have hbi : x &&& 0x80 ≠ 0 ↔ bits x 7 7 = 1 := and_two_pow_ne_zero_iff x (by decide : 7 < 32)
  have hd := destination_iff (x := x)
  have hi : x >>> 25 &&& 7 ≠ 1 ↔ bits x 27 25 ≠ 1 := not_congr (family_iff 1)
  have hsh : x >>> 25 &&& 7 ≠ 0 ↔ bits x 27 25 ≠ 0 := not_congr (family_iff 0)
  have hsa : planArmDataProcessingPcStep x pc cpsr rs =
      if bits x 15 12 ≠ 15 ∨ bits x 27 25 ≠ 1 ∧
        (bits x 27 25 ≠ 0 ∨ bits x 4 4 = 1 ∧ bits x 7 7 = 1) then .unknown
      else conditionally x pc cpsr (planArmDataProcessingResult x pc cpsr rs) := by
    simp only [planArmDataProcessingPcStep, conditionally, toNat_condition, hc, hb, hbi,
      hi, hsh, not_congr hd, Ne, false_or, if_false]
  rw [hsa]
  by_cases hsk : bits x 15 12 ≠ 15 ∨ bits x 27 25 ≠ 1 ∧
      (bits x 27 25 ≠ 0 ∨ bits x 4 4 = 1 ∧ bits x 7 7 = 1)
  · refine Or.inr ⟨if_pos hsk, ?_⟩
    rcases hsk with hot | ⟨hr, ho | ⟨set, _⟩⟩
    · exact decodeArm_destination hc he hl hs hot
    · exact decodeArm_family hc ho hr hs
    by_cases hf : bits x 27 25 = 0
    · have hfo : bits x 25 25 ≠ 1 := by
        simp only [bits] at hf ⊢
        omega
      rw [decodeArm_operation hc he hl (Or.inr hf), if_pos ⟨hfo, set⟩]
      rfl
    · exact decodeArm_family hc hf hr hs
  rw [if_neg hsk]
  have ht : bits x 15 12 = 15 := by omega
  have hf : bits x 27 25 = 1 ∨ bits x 27 25 = 0 := by omega
  rcases planArmDataProcessingResult_eq pc cpsr rs hc he hl ht hf with hex | ⟨hlo, hq⟩
  · exact Or.inl (conditionally_eq cpsr rs ha hc hex)
  · rw [hlo]
    exact (conditionally_unknown cpsr rs ha hc).imp_right fun hop =>
      ⟨hop, hq⟩

/-- The plan follows the architecture for each instruction it does not leave to others. -/
theorem uvdbArmPlanDirectStep_eq (ha : pc &&& 3 = 0) :
    uvdbArmPlanDirectStep x pc cpsr rs = planFor pc (armSuccessor pc cpsr rs x) ∨
      uvdbArmPlanDirectStep x pc cpsr rs = .unknown ∧
        (decodeArm x).branchesDirectly = false := by
  have hmo : x &&& 0x0ffffff0 = 0x01a0f000 ↔ bits x 27 4 = 0x1a0f00 :=
    register_iff x 0x1a0f00 (by decide)
  have hex : x &&& 0x0ffffff0 = 0x012fff10 ↔ bits x 27 4 = 0x12fff1 :=
    register_iff x 0x12fff1 (by decide)
  have hli : x &&& 0x0ffffff0 = 0x012fff30 ↔ bits x 27 4 = 0x12fff3 :=
    register_iff x 0x12fff3 (by decide)
  simp only [uvdbArmPlanDirectStep, exchangeImmediate_iff, branch_iff, hmo, hex, hli,
    toNat_lowMask x 0xf 3 rfl, ha, ne_eq, not_true_eq_false, if_false]
  by_cases hs : bits x 31 28 = 15
  · by_cases hb : bits x 27 25 = 5
    · refine Or.inl ?_
      rw [if_pos ⟨hs, hb⟩, armTransfer_branchLinkExchange cpsr rs ha hs
        hb toNat_exchangeOffset, armSuccessor, if_neg (fun hf => hf.1 hs)]
    refine Or.inr ⟨?_, ?_⟩
    · have hq : planArmDataProcessingPcStep x pc cpsr rs = .unknown := by
        simp only [planArmDataProcessingPcStep, toNat_condition, hs, true_or, if_true]
      simp only [hb, and_false, if_false, conditionally_unconditional cpsr hs, hq, ite_self]
    · rw [decodeArm, if_pos hs, if_neg hb]
      rfl
  rw [if_neg (fun hbo => hs hbo.1)]
  by_cases hb : bits x 27 25 = 5
  · rw [if_pos hb]
    exact Or.inl (conditionally_eq cpsr rs ha hs
      (armTransfer_branch cpsr rs ha hs hb toNat_offset))
  rw [if_neg hb]
  by_cases hm : bits x 27 4 = 0x1a0f00
  · rw [if_pos hm]
    refine Or.inl (conditionally_eq cpsr rs ha hs ?_)
    rw [armTransfer_move cpsr rs hs hm, setArmStepTarget_exchange]
    rfl
  rw [if_neg hm]
  by_cases he : bits x 27 4 = 0x12fff1
  · have hu : ¬bits x 27 4 = 0x12fff3 := by omega
    rw [if_pos (Or.inl he), if_neg (fun hbo => hu hbo.1)]
    refine Or.inl (conditionally_eq cpsr rs ha hs ?_)
    rw [armTransfer_branchExchange cpsr rs hs he, setArmStepTarget_exchange]
    rfl
  by_cases hl : bits x 27 4 = 0x12fff3
  · rw [if_pos (Or.inr hl)]
    refine Or.inl (conditionally_eq cpsr rs ha hs ?_)
    rw [armTransfer_branchLinkExchangeRegister cpsr rs hs hl, setArmStepTarget_exchange]
    by_cases hpc : bits x 3 0 = 15
    · rw [if_pos ⟨hl, hpc⟩, if_pos hpc, planFor]
    · rw [if_neg (fun hbo => hpc hbo.2), if_neg hpc]
      rfl
  rw [if_neg (fun hei => hei.elim he hl)]
  exact planArmDataProcessingPcStep_eq cpsr rs ha hs he hl hb

end DirectStep

end VitaDebugger.ArmStep
