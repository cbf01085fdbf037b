import Mathlib
import VitaDebugger.ThumbStep
import VitaDebugger.ArmStep

/-! The classifiers of the step planners against the encodings that write the program counter.
For ARM words the classifier accepts more: it reads the ones in bits 15 to 12 of other encodings
as the program counter. -/

namespace VitaDebugger.StepClassifiers
open BitField ArmArchitecture ThumbArchitecture StepPlanner StepFields

variable {t : StepTarget} {rs : Registers} {cpsr : Word}

section Arm
variable {x : Word}

/-- The encodings that the masks take for writes of the program counter because their bits 15 to
12 are ones. -/
def TakenForWriter (x : Word) : Prop :=
  bits x 31 28 ≠ 15 ∧ bits x 15 12 = 15 ∧ (bits x 27 26 = 1 ∧ bits x 20 20 = 1 ∨
    bits x 27 25 = 1 ∨ bits x 27 25 = 0 ∧ (bits x 4 4 = 0 ∨ bits x 7 7 = 0))

instance (x : Word) : Decidable (TakenForWriter x) := inferInstanceAs (Decidable (_ ∧ _))

theorem condition_iff (v : Word) : x >>> 28 = v ↔ bits x 31 28 = v.toNat := by
  rw [← toNat_condition, BitVec.toNat_inj]

theorem returnFromException_iff : x &&& 0xfe50ffff = 0xf8100a00 ↔ bits x 31 28 = 15 ∧
    bits x 27 25 = 4 ∧ bits x 22 22 = 0 ∧ bits x 20 20 = 1 ∧ bits x 15 0 = 0x0a00 :=
  and_eq_iff x [(31, 28, 15), (27, 25, 4), (22, 22, 0), (20, 20, 1), (15, 0, 0x0a00)] (by decide)

theorem exceptionReturn_iff : x &&& 0x0fffffff = 0x0160006e ↔ bits x 27 0 = 0x160006e :=
  and_eq_iff x [(27, 0, 0x160006e)] (by decide)

theorem loadMultiple_iff : x &&& 0x0e100000 = 0x08100000 ↔ bits x 27 25 = 4 ∧ bits x 20 20 = 1 :=
  and_eq_iff x [(27, 25, 4), (20, 20, 1)] (by decide)

theorem load_iff : x &&& 0x0c10f000 = 0x0410f000 ↔
    bits x 27 26 = 1 ∧ bits x 20 20 = 1 ∧ bits x 15 12 = 15 :=
  and_eq_iff x [(27, 26, 1), (20, 20, 1), (15, 12, 15)] (by decide)

theorem mayWritePc_iff :
    uvdbArmInstructionMayWritePc x = true ↔ ArmWritesPC x ∨ TakenForWriter x := by
  have hf : x &&& 0x10 ≠ 0 ↔ bits x 4 4 = 1 := and_two_pow_ne_zero_iff x (by decide : 4 < 32)
  have hse : x &&& 0x80 ≠ 0 ↔ bits x 7 7 = 1 := and_two_pow_ne_zero_iff x (by decide : 7 < 32)
  have hl : x &&& 0x00008000 ≠ 0 ↔ bits x 15 15 = 1 :=
    and_two_pow_ne_zero_iff x (by decide : 15 < 32)
  have he := register_iff x 0x12fff1 (by decide)
  have hb := register_iff x 0x12fff2 (by decide)
  have hli := register_iff x 0x12fff3 (by decide)
  have hc : ¬bits x 4 4 = 1 ↔ bits x 4 4 = 0 := by
    have bit : bits x 4 4 < 2 := bits_lt x 4 4
    omega
  have hcl : ¬bits x 7 7 = 1 ↔ bits x 7 7 = 0 := by
    have bit : bits x 7 7 < 2 := bits_lt x 7 7
    omega
  simp only [uvdbArmInstructionMayWritePc, decide_eq_true_eq, returnFromException_iff,
    exceptionReturn_iff, exchangeImmediate_iff, branch_iff, loadMultiple_iff, load_iff,
    ArmStep.destination_iff, ArmStep.family_iff, hf, hse, hl, ne_eq, condition_iff]
  by_cases hs : bits x 31 28 = 15
  · simp [ArmWritesPC, TakenForWriter, hs, or_comm]
  · simp only [ArmWritesPC, TakenForWriter, hs, ↓reduceIte, not_false_eq_true, true_and,
      false_and, false_or, ne_eq]
    grind

theorem conditionally_planned {x pc : Word} {taken : Plan StepTarget}
    (hp : conditionally x pc cpsr taken = .planned t) : bits x 31 28 ≠ 15 := by
  intro hs
  rw [ArmStep.conditionally_unconditional cpsr hs] at hp
  cases hp

theorem planArmDataProcessingPcStep_known {pc : Word}
    (hk : planArmDataProcessingPcStep x pc cpsr rs ≠ .unknown) :
    bits x 31 28 ≠ 15 ∧ bits x 15 12 = 15 ∧
      (bits x 27 25 = 1 ∨ bits x 27 25 = 0 ∧ (bits x 4 4 = 0 ∨ bits x 7 7 = 0)) := by
  have hfo : x &&& 0x10 ≠ 0 ↔ bits x 4 4 = 1 := and_two_pow_ne_zero_iff x (by decide : 4 < 32)
  have hs : x &&& 0x80 ≠ 0 ↔ bits x 7 7 = 1 := and_two_pow_ne_zero_iff x (by decide : 7 < 32)
  simp only [planArmDataProcessingPcStep, toNat_condition, ne_eq, ArmStep.destination_iff,
    ArmStep.family_iff] at hk
  split at hk
  · exact absurd rfl hk
  next hf =>
  have hb : bits x 4 4 < 2 := bits_lt x 4 4
  have hbi : bits x 7 7 < 2 := bits_lt x 7 7
  change ¬(_ ∨ _ ∨ ¬bits x 27 25 = 1 ∧ (¬bits x 27 25 = 0 ∨ x &&& 0x10 ≠ 0 ∧ x &&& 0x80 ≠ 0)) at hf
  rw [hfo, hs] at hf
  omega

/-- A direct plan is made only for words the classifier knows. -/
theorem uvdbArmPlanDirectStep_classified {pc : Word}
    (hp : uvdbArmPlanDirectStep x pc cpsr rs = .planned t) :
    uvdbArmInstructionMayWritePc x = true := by
  have hmo := register_iff x 0x1a0f00 (by decide)
  have hex := register_iff x 0x12fff1 (by decide)
  have hli := register_iff x 0x12fff3 (by decide)
  rw [mayWritePc_iff]
  simp only [uvdbArmPlanDirectStep, exchangeImmediate_iff, branch_iff] at hp
  split at hp
  · cases hp
  split at hp
  · next hs =>
    rw [ArmWritesPC, if_pos hs.1]
    exact .inl (.inl hs.2)
  split at hp
  · next hb =>
    rw [ArmWritesPC, if_neg (conditionally_planned hp)]
    exact .inl (.inl hb)
  split at hp
  · next hm =>
    have hf := hmo.mp hm
    refine .inr ⟨conditionally_planned hp, ?_⟩
    simp only [bits] at hf ⊢
    omega
  split at hp
  · next he =>
    rw [ArmWritesPC, if_neg (conditionally_planned hp)]
    rcases he with hpl | hl
    · exact .inl (.inr (.inl (hex.mp hpl)))
    · exact .inl (.inr (.inr (.inr (.inl (hli.mp hl)))))
  have hk : planArmDataProcessingPcStep x pc cpsr rs ≠ .unknown := by
    rw [hp]
    simp
  have hf := planArmDataProcessingPcStep_known hk
  exact .inr ⟨hf.1, hf.2.1, .inr hf.2.2⟩

theorem uvdbArmPlanLoadPcAddress_classified {pc a : Word}
    (hp : uvdbArmPlanLoadPcAddress x pc cpsr rs = .planned a) :
    uvdbArmInstructionMayWritePc x = true := by
  rw [mayWritePc_iff]
  simp only [uvdbArmPlanLoadPcAddress, toNat_condition, ne_eq, load_iff] at hp
  split at hp
  · cases hp
  split at hp
  · cases hp
  · next hf =>
    rw [not_or, not_not] at hf
    exact .inr ⟨hf.1, hf.2.2.2, .inl ⟨hf.2.1, hf.2.2.1⟩⟩

theorem startsExclusive_iff : uvdbArmInstructionStartsExclusive x = true ↔ ArmLoadsExclusive x := by
  have hf : x &&& 0x0f9000f0 = 0x01900090 ↔ bits x 27 23 = 3 ∧ bits x 20 20 = 1 ∧ bits x 7 4 = 9 :=
    and_eq_iff x [(27, 23, 3), (20, 20, 1), (7, 4, 9)] (by decide)
  rw [uvdbArmInstructionStartsExclusive, decide_eq_true_eq, hf, ne_eq, condition_iff]
  rfl

/-- No word that writes the program counter starts an exclusive sequence. -/
theorem exclusive_false (hw : ArmWritesPC x) : uvdbArmInstructionStartsExclusive x = false := by
  rw [← Bool.not_eq_true, startsExclusive_iff]
  rintro ⟨hc, hf, hl, hco⟩
  have hfi : bits x 27 25 = 0 ∧ bits x 27 26 = 0 ∧ bits x 4 4 = 1 ∧ bits x 7 7 = 1 ∧
      bits x 27 4 % 16 = 9 ∧ bits x 27 0 / 16 % 16 = 9 := by
    simp only [bits] at hf hl hco ⊢
    omega
  rw [ArmWritesPC, if_neg hc] at hw
  omega

theorem mayBlock_iff : uvdbStepInstructionMayBlock x false = true ↔ ArmWaits x ∨
    bits x 31 28 = 15 ∧ (bits x 27 0 = 0x320f002 ∨ bits x 27 0 = 0x320f003) := by
  have hc : x &&& 0x0f000000 = 0x0f000000 ↔ bits x 27 24 = 15 :=
    and_eq_iff x [(27, 24, 15)] (by decide)
  have low (v : Word) (hf : v.toNat < 2 ^ 28) :
      x &&& 0x0fffffff = v ↔ bits x 27 0 = v.toNat := by
    rw [mask_eq_iff x _ _ [(0, 28)] (by decide) (by decide)]
    simp only [fieldsOf, bits]
    omega
  simp only [uvdbStepInstructionMayBlock, Bool.false_eq_true, ↓reduceIte, decide_eq_true_eq, hc,
    low 0x0320f002 (by decide), low 0x0320f003 (by decide), ne_eq, condition_iff, ArmWaits]
  change ¬bits x 31 28 = 15 ∧ _ ∨ bits x 27 0 = 0x320f002 ∨ bits x 27 0 = 0x320f003 ↔ _
  omega

end Arm

section Thumb
variable {f s : Halfword}

theorem highDestination_iff :
    ((f &&& (7 : Halfword)) ||| (f >>> 4 &&& (8 : Halfword)) == 15) = true ↔
      bits f 7 7 = 1 ∧ bits f 2 0 = 7 := by
  have low := toNat_lowMask f 7 2 rfl
  have hh : (f >>> 4 &&& 8).toNat = bits f 7 7 * 2 ^ 3 := by
    rw [toNat_and_mask (f >>> 4) 8 [(3, 1)] (by decide) (by decide),
      BitVec.toNat_ushiftRight, Nat.shiftRight_eq_div_pow]
    simp only [fieldsOf, bits]
    omega
  have hs : bits f 2 0 < 2 ^ 3 := bits_lt f 2 0
  rw [beq_iff_eq, ← BitVec.toNat_inj, BitVec.or_comm, BitVec.toNat_or, hh, low,
    Nat.mul_comm, ← Nat.two_pow_add_eq_or_of_lt hs]
  change _ = 15 ↔ _
  omega

theorem highAdd_iff : f &&& 0xff00 = 0x4400 ↔ bits f 15 8 = 0x44 :=
  and_eq_iff f [(15, 8, 0x44)] (by decide)

theorem highMove_iff : f &&& 0xff00 = 0x4600 ↔ bits f 15 8 = 0x46 :=
  and_eq_iff f [(15, 8, 0x46)] (by decide)

theorem mayWritePc16_iff : uvdbThumb16InstructionMayWritePc f = true ↔ Thumb16WritesPC f := by
  have hl : f &&& 0xf800 = 0xe000 ↔ bits f 15 11 = 28 := by
    rw [ThumbPlan.branch_iff]
    simp only [bits]
    omega
  have he : f &&& 0xff07 = 0x4700 ↔ bits f 15 8 = 0x47 ∧ bits f 2 0 = 0 := by
    rw [ThumbPlan.plainExchange_iff]
    simp only [bits]
    omega
  have hp : f &&& 0xff00 = 0xbd00 ↔ bits f 15 8 = 0xbd := by
    rw [ThumbStep.pop_iff]
    simp only [bits]
    omega
  simp only [uvdbThumb16InstructionMayWritePc, ThumbPlan.conditionalBranch_iff,
    ThumbPlan.condition_lt_iff, hl, he, hp, ThumbPlan.compareBranch_iff, highAdd_iff,
    highMove_iff, Thumb16WritesPC]
  split
  · next hd =>
    grind
  next hd =>
  split
  · next hh =>
    rw [highDestination_iff]
    grind
  · next hh =>
    grind

theorem multipleFamily_iff : f &&& 0xfe50 = 0xe810 ↔
    bits f 15 9 = 0x74 ∧ bits f 6 6 = 0 ∧ bits f 4 4 = 1 :=
  and_eq_iff f [(15, 9, 0x74), (6, 6, 0), (4, 4, 1)] (by decide)

theorem returnDirections_iff : (f &&& 0x0080 != 0) = (f &&& 0x0100 != 0) ↔
    bits f 7 7 = bits f 8 8 := by
  have up := and_two_pow_bne f (by decide : 7 < 16)
  have hb := and_two_pow_bne f (by decide : 8 < 16)
  have hbi : bits f 7 7 < 2 := bits_lt f 7 7
  have hbt : bits f 8 8 < 2 := bits_lt f 8 8
  change (f &&& BitVec.ofNat 16 (2 ^ 7) != 0) = (f &&& BitVec.ofNat 16 (2 ^ 8) != 0) ↔ _
  rw [up, hb, decide_eq_decide]
  omega

theorem subtractReturn_iff : s &&& 0xff00 = 0x8f00 ↔ bits s 15 8 = 0x8f :=
  and_eq_iff s [(15, 8, 0x8f)] (by decide)

theorem halfword_iff (x v : Halfword) : x = v ↔ bits x 15 0 = v.toNat := by
  rw [← BitVec.toNat_inj]
  simp only [bits]
  omega

/-- No wide encoding that writes the program counter is missed. -/
theorem mayWritePc32_of_writes (hw : Thumb32WritesPC f s) :
    uvdbThumb32InstructionMayWritePc f s = true := by
  have top : s &&& 0x8000 ≠ 0 ↔ bits s 15 15 = 1 :=
    and_two_pow_ne_zero_iff s (by decide : 15 < 16)
  have hli : s &&& 0x1000 ≠ 0 ↔ bits s 12 12 = 1 :=
    and_two_pow_ne_zero_iff s (by decide : 12 < 16)
  have hl := ThumbPlan.loadFamily_iff f s
  rw [not_or, not_not, not_not] at hl
  simp only [uvdbThumb32InstructionMayWritePc, decide_eq_true_eq, ThumbPlan.wideFamily_iff, top,
    hli, ThumbPlan.exchangeForm_iff, ThumbPlan.conditionalForm_iff, ne_eq,
    ThumbPlan.conditionField_iff, ThumbStep.tableBranch_iff, multipleFamily_iff,
    returnDirections_iff, hl, subtractReturn_iff, ThumbStep.lead_iff f 0xf3c0 0xf3c rfl]
  rw [halfword_iff s 0x8f00, halfword_iff f 0xf3de]
  rcases hw with hb | ht | hm | hr | hlo | hs | hby
  · refine .inl ⟨hb.1, hb.2.1, ?_⟩
    have bit : bits s 12 12 < 2 := bits_lt s 12 12
    omega
  · exact .inr (.inl ht)
  · refine .inr (.inr (.inl ?_))
    simp only [bits] at hm ⊢
    omega
  · refine .inr (.inr (.inl ?_))
    simp only [bits] at hr ⊢
    omega
  · exact .inr (.inr (.inr (.inl hlo)))
  · exact .inr (.inr (.inr (.inr (.inr (.inr hs)))))
  · exact .inr (.inr (.inr (.inr (.inr (.inl hby)))))

section Plans
variable {pc : Word}

theorem uvdbThumb16PlanDirectStep_classified
    (hp : uvdbThumb16PlanDirectStep f pc cpsr rs = .planned t) :
    uvdbThumb16InstructionMayWritePc f = true := by
  rw [mayWritePc16_iff, Thumb16WritesPC]
  by_cases he : pc &&& 1 = 0
  · rw [ThumbPlan.uvdbThumb16PlanDirectStep_fields f cpsr rs (fun _ => none) he] at hp
    -- every planned form is one of the listed encodings; a plain exchange has low bits zero
    split at hp
    · next hf => exact .inl hf
    split at hp
    · next hf =>
      simp only [bits] at hf ⊢
      omega
    split at hp
    · next hf => exact .inr (.inr (.inl hf))
    split at hp
    · next hf =>
      simp only [bits] at hf ⊢
      omega
    split at hp
    · cases hp
    split at hp
    · next hf =>
      simp only [bits] at hf ⊢
      omega
    split at hp
    · next hf =>
      simp only [bits] at hf ⊢
      omega
    · cases hp
  · rw [uvdbThumb16PlanDirectStep, if_pos he] at hp
    cases hp

theorem uvdbThumb32PlanBranchStep_classified
    (hp : uvdbThumb32PlanBranchStep f s pc cpsr = .planned t) :
    uvdbThumb32InstructionMayWritePc f s = true := by
  rw [uvdbThumb32InstructionMayWritePc, decide_eq_true_eq]
  rw [uvdbThumb32PlanBranchStep] at hp
  split at hp
  · cases hp
  split at hp
  · cases hp
  next hf =>
  rw [not_or, not_not] at hf
  refine .inl ⟨hf.1, hf.2, ?_⟩
  split at hp
  · next hfo => exact hfo.elim .inl fun he => .inr (.inl he)
  split at hp
  · next hfo => exact .inr (.inr hfo)
  · cases hp

theorem uvdbThumb32PlanLoadPcAddress_classified {a : Word}
    (hp : uvdbThumb32PlanLoadPcAddress f s pc rs = .planned a) :
    uvdbThumb32InstructionMayWritePc f s = true := by
  rw [uvdbThumb32InstructionMayWritePc, decide_eq_true_eq]
  simp only [uvdbThumb32PlanLoadPcAddress] at hp
  split at hp
  · cases hp
  split at hp
  · cases hp
  · next hf =>
    rw [not_or, not_not, not_not] at hf
    exact .inr (.inr (.inr (.inl hf)))

end Plans
end Thumb
end VitaDebugger.StepClassifiers
