import VitaDebugger.ArmStep
import VitaDebugger.StepTraps

/-! The words a load and a multiple load of the program counter read in ARM state, and the
targets of ARM steps as a whole. -/

namespace VitaDebugger.ArmLoad
open BitField ArmArchitecture StepPlanner StepInsertion StepFields StepTraps ArmStep List

section Load
variable {x pc : Word} (cpsr : Word) (rgs : Registers)

theorem loadProgramCounter_iff :
    x &&& 0x0c10f000 = 0x0410f000 ↔ bits x 27 26 = 1 ∧ bits x 20 20 = 1 ∧ bits x 15 12 = 15 :=
  and_eq_iff x [(27, 26, 1), (20, 20, 1), (15, 12, 15)] (by decide)

theorem low_twelve : x &&& 0x0fff = BitVec.ofNat 32 (bits x 11 0) := by
  have hs : bits x 11 0 < 2 ^ 12 := bits_lt x 11 0
  apply BitVec.eq_of_toNat_eq
  rw [toNat_lowMask x _ 11 rfl, BitVec.toNat_ofNat]
  omega

theorem decodeArm_load (hc : bits x 31 28 ≠ 15) (hf : bits x 27 26 = 1)
    (hw : bits x 22 22 ≠ 1) (hl : bits x 20 20 = 1)
    (hu : ¬(bits x 24 24 ≠ 1 ∧ bits x 21 21 = 1)) (hfo : bits x 25 25 ≠ 1 ∨ bits x 4 4 ≠ 1) :
    decodeArm x = .load (decide (bits x 24 24 = 1)) (decide (bits x 23 23 = 1)) (bits x 19 16)
      (bits x 15 12) (decodeOperand x (decide (bits x 25 25 ≠ 1))) := by
  have hfi : ¬(bits x 22 22 = 1 ∨ bits x 20 20 = 0 ∨ bits x 24 24 = 0 ∧ bits x 21 21 = 1) := by
    omega
  rw [decodeArm, if_neg hc]
  by_cases hs : bits x 25 25 = 1
  · have hco : bits x 27 25 = 3 := by
      simp only [bits] at hf hs ⊢
      omega
    have hr : bits x 4 4 = 0 := by
      have bit : bits x 4 4 < 2 := bits_lt x 4 4
      omega
    simp only [hco, hr, if_true, decodeLoad, hfi, if_false, hs]
    rfl
  have hco : bits x 27 25 = 2 := by
    have bit : bits x 25 25 < 2 := bits_lt x 25 25
    simp only [bits] at hf hs bit ⊢
    omega
  simp only [hco, decodeLoad, hfi, if_false, ne_eq, hs, not_false_eq_true, decide_true]

/-- A planned load address is the one the architecture reads the program counter from. -/
theorem uvdbArmPlanLoadPcAddress_planned {a : Word} (ha : pc &&& 3 = 0)
    (hp : uvdbArmPlanLoadPcAddress x pc cpsr rgs = .planned a) :
    bits x 31 28 ≠ 15 ∧ conditionPassed (bits x 31 28) cpsr = true ∧
      armLoadAddress pc cpsr rgs (decodeArm x) = some a := by
  have pre : (x &&& 0x01000000 != 0) = decide (bits x 24 24 = 1) :=
    and_two_pow_bne x (by decide : 24 < 32)
  have add : (x &&& 0x00800000 != 0) = decide (bits x 23 23 = 1) :=
    and_two_pow_bne x (by decide : 23 < 32)
  have hw : (x &&& 0x00200000 != 0) = decide (bits x 21 21 = 1) :=
    and_two_pow_bne x (by decide : 21 < 32)
  have hr : (x &&& 0x02000000 != 0) = decide (bits x 25 25 = 1) :=
    and_two_pow_bne x (by decide : 25 < 32)
  have hby : x &&& 0x00400000 ≠ 0 ↔ bits x 22 22 = 1 :=
    and_two_pow_ne_zero_iff x (by decide : 22 < 32)
  have hfi : bits x 31 28 < 16 := bits_lt x 31 28
  simp only [uvdbArmPlanLoadPcAddress, toNat_condition, toNat_shiftMask x 0xf 19 16 rfl,
    toNat_lowMask x 0xf 3 rfl, pre, add, hw, hr, hby, ha, ne_eq,
    not_true_eq_false, if_false, loadProgramCounter_iff, decodeArmImmediateShiftRegister_eq,
    low_twelve] at hp
  split at hp
  · cases hp
  case isFalse hlo =>
  split at hp
  · cases hp
  case isFalse he =>
  split at hp
  · cases hp
  case isFalse hwo =>
  split at hp
  · cases hp
  case isFalse hm =>
  simp only [decide_eq_true_eq, Bool.not_eq_true', decide_eq_false_iff_not] at hm hp
  have hc : bits x 31 28 ≠ 15 := fun hsp => hlo (Or.inl hsp)
  obtain ⟨hfa, hl, hd⟩ := not_not.mp fun hn => hlo (Or.inr hn)
  rw [uvdbArmConditionPassed_eq cpsr (by omega), Bool.not_eq_true', Bool.not_eq_false] at he
  have hb : (if bits x 19 16 = 15 then clearLow 2 (pc + 8)
      else rgs (Fin.ofNat 16 (bits x 19 16))) = armRegisterValue pc rgs (bits x 19 16) := by
    rw [clearLow_ahead ha]
    rfl
  refine ⟨hc, he, ?_⟩
  by_cases hs : bits x 25 25 = 1
  · rw [if_pos hs] at hp
    split at hp
    · cases hp
    case h_2 offset hf =>
    split at hf
    · cases hf
    split at hf
    · cases hf
    case isFalse hi =>
    cases hf
    cases hp
    rw [decodeArm_load hc hfa hwo hl (by omega) (Or.inr hi), hd]
    simp only [armLoadAddress, decodeOperand, hs, ne_eq, not_true_eq_false, decide_false,
      Bool.false_eq_true, if_false, decide_eq_true_eq, hb]
  rw [if_neg hs] at hp
  cases hp
  rw [decodeArm_load hc hfa hwo hl (by omega) (Or.inl hs), hd]
  simp only [armLoadAddress, decodeOperand, hs, ne_eq, not_false_eq_true, decide_true,
    if_true, decide_eq_true_eq, hb]

end Load

section LoadMultiple
variable {x pc : Word} (rs : Registers)

/-- How many registers below the program counter a list selects. -/
def belowCount (x : Word) : ℕ := (List.range 15).countP fun i => x.getLsbD i

theorem belowCount_list : belowCount x =
    (List.range 15).countP fun i => (x.setWidth 16).getLsbD i := by
  apply countP_congr
  intro i hi
  have hs : i < 16 := by
    have hb := mem_range.mp hi
    omega
  simp [hs]

theorem bitCount_list (hs : x.getLsbD 15 = true) : bitCount (x.setWidth 16) = belowCount x + 1 := by
  have hl : (x.setWidth 16).getLsbD 15 = true := by
    rw [BitVec.getLsbD_setWidth, hs]
    rfl
  rw [bitCount, range_succ, countP_append, countP_singleton, belowCount_list, hl]
  rfl

theorem armSavedPcAddress_eq {cpsr : Word} (hs : x.getLsbD 15 = true) :
    armSavedPcAddress x ⟨rs, cpsr⟩ =
      transferAddress (startAddress (decide (bits x 24 24 = 1)) (decide (bits x 23 23 = 1))
        (rs (Fin.ofNat 16 (bits x 19 16))) (x.setWidth 16)) (x.setWidth 16) 15 := by
  have hc : popcount (x &&& 0x7fff) = belowCount x := popcount_low x _ (by decide) rfl
  have hb : bits x 24 24 < 2 := bits_lt x 24 24
  have hu : x >>> 23 &&& 1 ≠ 0 ↔ bits x 23 23 = 1 := by
    rw [Ne, ← BitVec.toNat_inj, toNat_shiftMask x 1 23 23 rfl]
    have bit : bits x 23 23 < 2 := bits_lt x 23 23
    change ¬_ = 0 ↔ _
    omega
  rw [transferAddress_eq, ← belowCount_list]
  simp only [armSavedPcAddress, toNat_shiftMask x 0xf 19 16 rfl, toNat_shiftMask x 1 24 24 rfl,
    hu, hc]
  generalize rs (Fin.ofNat 16 (bits x 19 16)) = base
  generalize hsi : belowCount x = n
  have ht := bitCount_list hs
  rw [hsi] at ht
  have ha : BitVec.ofNat 32 (4 * (n + 1)) = BitVec.ofNat 32 (4 * n) + 4 := by
    rw [Nat.mul_add, BitVec.ofNat_add]
    rfl
  by_cases hi : bits x 23 23 = 1
  · by_cases hf : bits x 24 24 = 1
    · simp only [hi, hf, decide_true, if_true, startAddress, Nat.mul_comm _ 4, ha]
      grind
    · have hz : bits x 24 24 = 0 := by omega
      simp only [hi, hz, decide_true, if_true, startAddress, Nat.mul_comm _ 4]
      rfl
  by_cases hf : bits x 24 24 = 1
  · simp only [hi, hf, decide_true, decide_false, if_false, startAddress, ht, ha]
    grind
  · have hz : bits x 24 24 = 0 := by omega
    simp only [hi, hz, if_false, startAddress, ht, ha]
    grind

theorem decodeArm_loadMultiple (hc : bits x 31 28 ≠ 15) (hf : bits x 27 25 = 4)
    (hl : bits x 20 20 = 1) (hu : bits x 22 22 ≠ 1) :
    decodeArm x = .loadMultiple (decide (bits x 24 24 = 1)) (decide (bits x 23 23 = 1))
      (bits x 19 16) (x.setWidth 16) := by
  have hfi : ¬(bits x 22 22 = 1 ∨ bits x 20 20 = 0) := by omega
  rw [decodeArm, if_neg hc]
  simp only [hf, decodeLoadMultiple, hfi, if_false]

/-- A step over an executed multiple load waits for the word it loads, or is refused. -/
theorem insertArmLoadMultiple_eq (m : Memory) (cpsr : Word) (ha : pc &&& 3 = 0)
    (hc : bits x 31 28 ≠ 15) (he : conditionPassed (bits x 31 28) cpsr = true)
    (hf : bits x 27 25 = 4) (hlo : bits x 20 20 = 1) (hs : bits x 15 15 = 1) :
    insertArmLoadMultiple m x pc ⟨rs, cpsr⟩ = .refused ∨
      ∃ s w, armMultiplePcAddress rs (decodeArm x) = some s ∧
        readWord m s = some w ∧
        insertArmLoadMultiple m x pc ⟨rs, cpsr⟩ = trapFor pc (bxWritePC w) := by
  have hfi : bits x 31 28 < 16 := bits_lt x 31 28
  have hl : x.getLsbD 15 = true := by
    rw [getLsbD_iff]
    exact hs
  have hli : (x.setWidth 16).getLsbD 15 = true := by
    rw [BitVec.getLsbD_setWidth, hl]
    rfl
  have hu : x &&& (1 : Word) <<< 22 ≠ 0 ↔ bits x 22 22 = 1 :=
    and_two_pow_ne_zero_iff x (by decide : 22 < 32)
  simp only [insertArmLoadMultiple, toNat_condition, uvdbArmConditionPassed_eq cpsr
    (show bits x 31 28 < 15 by omega), he, Bool.not_true, Bool.false_eq_true, if_false, hu]
  split
  · exact Or.inl rfl
  case isFalse hm =>
  split
  · exact Or.inl rfl
  rw [decodeArm_loadMultiple hc hf hlo hm, armSavedPcAddress_eq rs hl]
  refine (insertLoaded_eq m _ (even_of_aligned ha)).imp_right ?_
  rintro ⟨w, hfo, ht⟩
  exact ⟨_, w, if_pos hli, hfo, ht⟩

theorem insertArmStep_loadMultiple (m : Memory) (cpsr : Word) (hpe : Bool)
    (ha : pc &&& 3 = 0)
    (hc : bits x 31 28 ≠ 15) (hex : conditionPassed (bits x 31 28) cpsr = true)
    (hf : bits x 27 25 = 4) (hl : bits x 20 20 = 1) (hs : bits x 15 15 = 1) :
    insertArmStep m x pc ⟨rs, cpsr⟩ hpe = .refused ∨
      ∃ s word, armMultiplePcAddress rs (decodeArm x) = some s ∧
        readWord m s = some word ∧
        insertArmStep m x pc ⟨rs, cpsr⟩ hpe = trapFor pc (bxWritePC word) := by
  have hp : uvdbArmInstructionStartsExclusive x = false := by
    rw [uvdbArmInstructionStartsExclusive, decide_eq_false_iff_not]
    rintro ⟨_, he⟩
    rw [mask_eq_iff x _ _ [(23, 5), (20, 1), (4, 4)] (by decide) (by decide)] at he
    change _ = 0x01900090 at he
    simp only [fieldsOf, bits] at he hf
    omega
  have hm : x &&& 0x0e108000 = 0x08108000 := by
    rw [mask_eq_iff x _ _ [(25, 3), (20, 1), (15, 1)] (by decide) (by decide)]
    change _ = 0x08108000
    simp only [fieldsOf, bits] at hf hl hs ⊢
    omega
  have hu : armTransfer pc cpsr rs (decodeArm x) = none := by
    rw [decodeArm, if_neg hc]
    simp only [hf, decodeLoadMultiple]
    split <;> rfl
  unfold insertArmStep
  simp only [hp, Bool.false_eq_true, if_false, hm, if_true]
  split
  · exact Or.inl rfl
  rcases uvdbArmPlanDirectStep_eq cpsr rs ha with hd | ⟨hlo, _⟩
  · have hst : armSuccessor pc cpsr rs x = none := by
      rw [armSuccessor, if_neg (fun hfa => hfa.2 hex), hu]
    rw [hd, hst]
    exact Or.inl rfl
  · rw [hlo]
    exact insertArmLoadMultiple_eq rs m cpsr ha hc hex hf hl hs

end LoadMultiple

section Targets
variable (x pc cpsr : Word) (registers : Registers)

theorem bxWritePC_halfway {a : Word} (hh : a &&& 3 = 2) : bxWritePC a = none := by
  have low : a.toNat % 4 = 2 := by
    rw [mask_eq_iff a _ _ [(0, 2)] (by decide) (by decide)] at hh
    change _ = 2 at hh
    simp only [fieldsOf] at hh
    omega
  have he : ¬a &&& 1 ≠ 0 := by
    rw [not_not, and_one_iff]
    omega
  have hu : a &&& 3 ≠ 0 := by
    rw [Ne, and_three_iff]
    omega
  rw [bxWritePC_masks, if_neg he, if_pos hu]

theorem trapFor_self {pc word : Word} (hs : word &&& ~~~1 = pc) :
    trapFor pc (bxWritePC word) = .refused := by
  rw [bxWritePC_masks]
  split
  · rw [branchWritePC, clearLow_one, hs, trapFor, if_pos rfl]
  case isFalse odd =>
  split
  · rfl
  case isFalse hu =>
    have ha := (and_three_iff word).mp (not_not.mp hu)
    rw [and_not_one_of_even (not_not.mp odd)] at hs
    rw [branchWritePC, clearLow_of_aligned ha, hs, trapFor, if_pos rfl]

/-- Every target of an ARM step is the architecture's: the direct plan of all instructions, the
address a load reads the program counter from, and the word a multiple load puts there. An ARM
address with low bits `10` and a target that is the instruction itself are refused. -/
theorem arm_step_targets (aligned : pc &&& 3 = 0) :
    (∀ target, uvdbArmPlanDirectStep x pc cpsr registers = .planned target →
      armSuccessor pc cpsr registers x = some (successorOf target) ∧ target.address ≠ pc) ∧
    ((decodeArm x).branchesDirectly = true → uvdbArmPlanDirectStep x pc cpsr registers ≠ .unknown ∧
      (armSuccessor pc cpsr registers x = none →
        uvdbArmPlanDirectStep x pc cpsr registers = .refused) ∧
      ∀ next, armSuccessor pc cpsr registers x = some next → next.address = pc →
        uvdbArmPlanDirectStep x pc cpsr registers = .refused) ∧
    (∀ address, uvdbArmPlanLoadPcAddress x pc cpsr registers = .planned address →
      conditionPassed (bits x 31 28) cpsr = true ∧
        armLoadAddress pc cpsr registers (decodeArm x) = some address) ∧
    (∀ memory holdPeers, registers 15 = pc → cpsr &&& 32 = 0 → readWord memory pc = some x →
      bits x 31 28 ≠ 15 → conditionPassed (bits x 31 28) cpsr = true →
      bits x 27 25 = 4 → bits x 20 20 = 1 → bits x 15 15 = 1 →
      breakpointInsertStep memory ⟨registers, cpsr⟩ holdPeers = .refused ∨
        ∃ saved word, armMultiplePcAddress registers (decodeArm x) = some saved ∧
          readWord memory saved = some word ∧
          breakpointInsertStep memory ⟨registers, cpsr⟩ holdPeers = trapFor pc (bxWritePC word)) ∧
    (∀ address, address &&& 3 = 2 → setArmStepTarget address (address &&& 1 != 0) pc = .refused ∧
        breakpointInsertStepTarget address pc = .refused) ∧
    ∀ memory saved word, readWord memory saved = some word →
      word &&& 3 = 2 ∨ word &&& ~~~1 = pc → insertLoaded memory saved pc = .refused := by
  have hev : pc &&& 1 = 0 := even_of_aligned aligned
  have hp := uvdbArmPlanDirectStep_eq (x := x) cpsr registers aligned
  refine ⟨?_, ?_, ?_, ?_, ?_, ?_⟩
  · intro target planned
    rcases hp with hd | ⟨hlo, _⟩
    · exact planFor_planned (hd.symm.trans planned)
    · cases hlo.symm.trans planned
  · intro hd
    have hfo : uvdbArmPlanDirectStep x pc cpsr registers =
        planFor pc (armSuccessor pc cpsr registers x) :=
      hp.resolve_right fun hlo => Bool.false_ne_true (hlo.2.symm.trans hd)
    rw [hfo]
    refine ⟨planFor_ne_unknown pc _, ?_, ?_⟩
    · intro hn
      rw [hn, planFor]
    · intro next hs hsl
      rw [hs, planFor, if_pos hsl]
  · intro address planned
    exact (uvdbArmPlanLoadPcAddress_planned cpsr registers aligned planned).2
  · intro memory holdPeers hcu arm hf hc he hfa hla hse
    have hsp := insertArmStep_loadMultiple registers memory cpsr holdPeers aligned hc he hfa hla hse
    simp only [breakpointInsertStep, hcu, hf, arm, ne_eq, not_true_eq_false, if_false]
    split
    · exact Or.inl rfl
    · exact hsp
  · intro address hh
    rw [setArmStepTarget_exchange, breakpointInsertStepTarget_eq address hev, bxWritePC_halfway hh]
    exact ⟨rfl, rfl⟩
  intro memory saved word hl bad
  rcases insertLoaded_eq memory saved hev with hst | ⟨found, hr, ht⟩
  · exact hst
  rw [hl] at hr
  cases hr
  rw [ht]
  rcases bad with hh | hsl
  · rw [bxWritePC_halfway hh, trapFor]
  · exact trapFor_self hsl

/-- `ldmia sp!, {r4, pc}` at `0x81000000`, with a return address into Thumb code above `r4`. -/
def returnMemory : Memory := fun address =>
  match address.toNat with
  | 0x81000000 => some 0x10
  | 0x81000001 => some 0x80
  | 0x81000002 => some 0xbd
  | 0x81000003 => some 0xe8
  | 0x81400004 => some 0x01
  | 0x81400005 => some 0x02
  | 0x81400006 => some 0x00
  | 0x81400007 => some 0x81
  | _ => none

def returnRegisters : Registers := fun i =>
  if i = 13 then 0x81400000 else if i = 14 then 0x81000102 else if i = 15 then 0x81000000 else 0

/-- At one address: a call through a register is planned, an exchange to an address with low bits
`10` is refused, and a return from the stack waits for the saved word. -/
theorem arm_step_targets_return :
    armSuccessor 0x81000000 0x10 returnRegisters 0xe12fff3d = some ⟨0x81400000, .arm⟩ ∧
      uvdbArmPlanDirectStep 0xe12fff1e 0x81000000 0x10 returnRegisters = .refused ∧
      armMultiplePcAddress returnRegisters (decodeArm 0xe8bd8010) = some 0x81400004 ∧
      breakpointInsertStep returnMemory ⟨returnRegisters, 0x10⟩ false = .trap 0x81000200 2 := by
  have hc := arm_step_targets 0xe12fff3d 0x81000000 0x10 returnRegisters (by decide)
  have he := arm_step_targets 0xe12fff1e 0x81000000 0x10 returnRegisters (by decide)
  have hm := arm_step_targets 0xe8bd8010 0x81000000 0x10 returnRegisters (by decide)
  refine ⟨(hc.1 ⟨0x81400000, 4⟩ (by decide)).1, (he.2.1 (by decide)).2.1 (by decide), ?_⟩
  rcases hm.2.2.2.1 returnMemory false rfl (by decide) (by decide) (by decide) (by decide)
    (by decide) (by decide) (by decide) with refused | ⟨s, word, ha, hl, trap⟩
  · exact absurd refused (by decide)
  have hp : s = 0x81400004 := by
    have hk : armMultiplePcAddress returnRegisters (decodeArm 0xe8bd8010) = some 0x81400004 := by
      decide
    exact Option.some.inj (ha.symm.trans hk)
  subst hp
  have hv : word = 0x81000201 := by
    have hk : readWord returnMemory 0x81400004 = some 0x81000201 := by decide
    exact Option.some.inj (hl.symm.trans hk)
  subst hv
  exact ⟨ha, trap.trans (by decide)⟩

end Targets

end VitaDebugger.ArmLoad
