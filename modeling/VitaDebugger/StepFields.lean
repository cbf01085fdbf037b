import Mathlib.Tactic.IntervalCases
import VitaDebugger.StepPlanner

/-! The step planners' conditions, targets and shifter, read as the architecture states them:
masks as fields, targets as successors, second operands as shifted registers. -/

namespace VitaDebugger.StepFields
open BitField ArmArchitecture StepPlanner BitVec

section Words
variable {w : ℕ} (word mask : BitVec w)

theorem mask_eq_iff (v : BitVec w) (fs : List (ℕ × ℕ)) (hd : Descends fs)
    (hs : mask.toNat = maskOf fs) :
    word &&& mask = v ↔ fieldsOf word.toNat fs = v.toNat := by
  rw [← toNat_and_mask word mask fs hd hs, toNat_inj]

variable {mask}

theorem and_eq_iff {v : BitVec w} (fs : List (ℕ × ℕ × ℕ))
    (fit : reads mask.toNat v.toNat fs) : word &&& mask = v ↔ HasFields word fs := by
  rw [← toNat_inj, toNat_and, nat_and_eq_iff word fit]

variable (mask)

theorem toNat_shiftMask (high low : ℕ) (hs : mask.toNat = 2 ^ (high + 1 - low) - 1) :
    (word >>> low &&& mask).toNat = bits word high low := by
  rw [toNat_and, hs, toNat_ushiftRight, Nat.shiftRight_eq_div_pow,
    Nat.and_two_pow_sub_one_eq_mod, bits]

theorem toNat_lowMask (high : ℕ) (hs : mask.toNat = 2 ^ (high + 1) - 1) :
    (word &&& mask).toNat = bits word high 0 := by
  have hsh := toNat_shiftMask word mask high 0 hs
  rwa [ushiftRight_zero] at hsh

theorem and_two_pow_ne_zero_iff {i : ℕ} (hi : i < w) :
    word &&& BitVec.ofNat w (2 ^ i) ≠ 0 ↔ bits word i i = 1 := by
  have hs : (BitVec.ofNat w (2 ^ i)).toNat = maskOf [(i, 1)] := by
    rw [toNat_ofNat, Nat.mod_eq_of_lt (Nat.pow_lt_pow_right (by decide) hi)]
    simp [maskOf]
  have hw := Nat.two_pow_pos i
  rw [Ne, mask_eq_iff word _ _ [(i, 1)] ⟨hw, trivial⟩ hs]
  change ¬_ = (0#w).toNat ↔ _
  rw [toNat_zero]
  simp only [fieldsOf, bits, Nat.add_sub_cancel_left]
  rw [Nat.add_zero, Nat.mul_eq_zero]
  omega

theorem and_two_pow_bne {i : ℕ} (hi : i < w) :
    (word &&& BitVec.ofNat w (2 ^ i) != 0) = decide (bits word i i = 1) := by
  rw [Bool.eq_iff_iff, bne_iff_ne, decide_eq_true_iff]
  exact and_two_pow_ne_zero_iff word hi

end Words

section Fields
variable (x : Word)

theorem exchangeImmediate_iff :
    x &&& 0xfe000000 = 0xfa000000 ↔ bits x 31 28 = 15 ∧ bits x 27 25 = 5 :=
  and_eq_iff x [(31, 28, 15), (27, 25, 5)] (by decide)

theorem branch_iff : x &&& 0x0e000000 = 0x0a000000 ↔ bits x 27 25 = 5 :=
  and_eq_iff x [(27, 25, 5)] (by decide)

theorem register_iff (value : ℕ) (hs : value < 2 ^ 24) :
    x &&& 0x0ffffff0 = BitVec.ofNat 32 (value * 16) ↔ bits x 27 4 = value := by
  rw [mask_eq_iff x _ _ [(4, 24)] (by decide) (by decide), toNat_ofNat]
  simp only [fieldsOf, bits]
  omega

theorem toNat_condition : (x >>> 28).toNat = bits x 31 28 := by
  simp only [toNat_ushiftRight, Nat.shiftRight_eq_div_pow, bits]
  omega

theorem shift_and_one (i : ℕ) : x >>> i &&& 1 = (BitVec.ofBool (x.getLsbD i)).setWidth 32 := by
  apply eq_of_toNat_eq
  rw [toNat_shiftMask x 1 i i (by simp), bits, toNat_setWidth, toNat_ofBool, getLsbD,
    Nat.toNat_testBit, Nat.add_sub_cancel_left, Nat.pow_one]
  omega

theorem and_one_ne_zero (i : ℕ) : (x >>> i &&& 1 != 0) = x.getLsbD i := by
  rw [shift_and_one]
  cases x.getLsbD i <;> rfl

end Fields

theorem uvdbArmConditionPassed_eq {cond : ℕ} (cpsr : Word) (hc : cond < 15) :
    uvdbArmConditionPassed cond cpsr = conditionPassed cond cpsr := by
  unfold uvdbArmConditionPassed conditionPassed
  simp only [shift_and_one]
  generalize cpsr.getLsbD 31 = n
  generalize cpsr.getLsbD 30 = z
  generalize cpsr.getLsbD 29 = c
  generalize cpsr.getLsbD 28 = v
  interval_cases cond <;> revert n z c v <;> decide

/-- The successor a trap of the planned size waits for. -/
def successorOf (target : StepTarget) : Successor :=
  ⟨target.address, if target.breakpointSize = 2 then .thumb else .arm⟩

variable (address : Word)

theorem toNat_clearLow (n : ℕ) (address : Word) :
    (clearLow n address).toNat = address.toNat / 2 ^ n * 2 ^ n := by
  have hw := Nat.div_mul_le_self address.toNat (2 ^ n)
  rw [clearLow, toNat_shiftLeft, toNat_ushiftRight, Nat.shiftRight_eq_div_pow,
    Nat.shiftLeft_eq, Nat.mod_eq_of_lt (by omega)]

theorem clearLow_one : clearLow 1 address = address &&& ~~~1 := by
  apply eq_of_toNat_eq
  rw [toNat_clearLow, toNat_and_mask address (~~~1) [(1, 31)] (by decide) (by decide)]
  simp only [fieldsOf]
  omega

theorem clearLow_two : clearLow 2 address = address &&& ~~~3 := by
  apply eq_of_toNat_eq
  rw [toNat_clearLow, toNat_and_mask address (~~~3) [(2, 30)] (by decide) (by decide)]
  simp only [fieldsOf]
  omega

theorem and_three_iff : address &&& 3 = 0 ↔ address.toNat % 4 = 0 := by
  rw [mask_eq_iff address _ _ [(0, 2)] (by decide) (by decide)]
  simp only [fieldsOf]
  change _ = 0 ↔ _
  omega

theorem clearLow_of_aligned {address : Word} (ha : address.toNat % 4 = 0) :
    clearLow 2 address = address := by
  apply eq_of_toNat_eq
  rw [toNat_clearLow]
  omega

theorem getLsbD_iff (x : Word) (i : ℕ) : x.getLsbD i = true ↔ x.toNat / 2 ^ i % 2 = 1 := by
  rw [getLsbD, Nat.testBit_eq_decide_div_mod_eq, decide_eq_true_iff]

/-- The plan for a known successor: an instruction that continues at itself has none. -/
def planFor (pc : Word) : Option Successor → Plan StepTarget
  | none => .refused
  | some next =>
    if next.address = pc then .refused
    else .planned ⟨next.address, if next.state = .thumb then 2 else 4⟩

theorem planFor_planned {pc : Word} {n : Option Successor} {t : StepTarget}
    (hp : planFor pc n = .planned t) :
    n = some (successorOf t) ∧ t.address ≠ pc := by
  cases n with
  | none => cases hp
  | some n =>
    obtain ⟨address, s⟩ := n
    simp only [planFor] at hp
    split at hp
    · cases hp
    case isFalse hm =>
    cases hp
    refine ⟨?_, hm⟩
    cases s <;> rfl

theorem planFor_ne_unknown (pc : Word) (next : Option Successor) : planFor pc next ≠ .unknown := by
  cases next with
  | none => nofun
  | some next =>
    simp only [planFor]
    split <;> nofun

theorem setArmStepTarget_thumb (pc : Word) :
    setArmStepTarget address true pc = planFor pc (some (branchWritePC .thumb address)) := by
  rw [branchWritePC, clearLow_one]
  rfl

theorem setArmStepTarget_arm {address : Word} (pc : Word) (ha : address &&& 3 = 0) :
    setArmStepTarget address false pc = planFor pc (some (branchWritePC .arm address)) := by
  rw [branchWritePC, clearLow_two, setArmStepTarget, if_neg (fun odd => odd.2 ha)]
  rfl

theorem and_one_ne : (address &&& 1 != 0) = address.getLsbD 0 := by
  have bit := and_one_ne_zero address 0
  rwa [ushiftRight_zero] at bit

theorem bxWritePC_masks : bxWritePC address =
      if address &&& 1 ≠ 0 then some (branchWritePC .thumb address)
      else if address &&& 3 ≠ 0 then none
      else some (branchWritePC .arm address) := by
  have ht : address &&& 1 ≠ 0 ↔ address.getLsbD 0 = true := by
    rw [← and_one_ne, bne_iff_ne]
  rw [bxWritePC]
  by_cases odd : address.getLsbD 0 = true
  · rw [if_pos odd, if_pos (ht.mpr odd)]
  rw [if_neg odd, if_neg (fun set => odd (ht.mp set))]
  refine if_congr ?_ rfl rfl
  rw [getLsbD_iff] at odd ⊢
  rw [Ne, and_three_iff]
  omega

theorem setArmStepTarget_exchange (pc : Word) :
    setArmStepTarget address (address &&& 1 != 0) pc = planFor pc (bxWritePC address) := by
  rw [bxWritePC_masks]
  by_cases odd : address &&& 1 ≠ 0
  · rw [if_pos odd, bne_iff_ne.mpr odd, setArmStepTarget_thumb]
  rw [if_neg odd, not_not.mp odd, bne_self_eq_false]
  by_cases hu : address &&& 3 ≠ 0
  · rw [if_pos hu, setArmStepTarget, if_pos ⟨rfl, hu⟩, planFor]
  · rw [if_neg hu, setArmStepTarget_arm pc (not_not.mp hu)]

theorem signExtendU32_eq {e : Word} {n : ℕ} (hs : e.toNat < 2 ^ (n + 1)) (hf : n < 32) :
    signExtendU32 e (n + 1) = (BitVec.ofNat (n + 1) e.toNat).signExtend 32 := by
  have hsi : (1 : Word) <<< n = BitVec.ofNat 32 (2 ^ n) := by
    apply eq_of_toNat_eq
    rw [toNat_shiftLeft, toNat_ofNat, Nat.shiftLeft_eq]
    exact congrArg (· % 2 ^ 32) (Nat.one_mul _)
  have he := xor_sub_eq_signExtend hs hf
  rw [ofNat_toNat, setWidth_eq] at he
  simp only [signExtendU32, Nat.add_sub_cancel, hsi]
  exact he

theorem rotateRightU32_eq (v : Word) {amount : ℕ} (hs : amount < 32) :
    rotateRightU32 v amount = v.rotateRight amount := by
  have hm : amount &&& 31 = amount := by
    rw [Nat.and_two_pow_sub_one_eq_mod amount 5]
    exact Nat.mod_eq_of_lt hs
  unfold rotateRightU32
  rw [rotateRight_def, Nat.mod_eq_of_lt hs]
  simp only [hm]
  split
  · rfl
  case isFalse hz =>
    rw [not_not.mp hz]
    simp

theorem arithmeticShiftRightU32_eq (v : Word) {amount : ℕ} (hs : amount < 32) :
    arithmeticShiftRightU32 v amount =
      v.sshiftRight (if amount = 0 then 32 else amount) := by
  have hsi : v &&& 0x80000000 ≠ 0 ↔ v.msb = true := by
    rw [Ne, mask_eq_iff v _ _ [(31, 1)] (by decide) (by decide), msb_eq_decide,
      decide_eq_true_iff]
    simp only [fieldsOf]
    change ¬_ = 0 ↔ _
    omega
  have ho {i : ℕ} (hi : i < 32) : (4294967295#32)[i] = true := getElem_allOnes i hi
  apply eq_of_getLsbD_eq
  intro i hi
  have hbe : ¬32 ≤ i := Nat.not_le.mpr hi
  unfold arithmeticShiftRightU32
  simp only [hsi, Nat.not_le.mpr hs, or_false]
  rw [getLsbD_sshiftRight]
  cases top : v.msb with
  | true =>
    by_cases hz : amount = 0
    · have hb : ¬32 + i < 32 := by omega
      simp [hz, hbe, hb, hi, ho hi]
    by_cases hb : amount + i < 32
    · have low : i < 32 - amount := by omega
      simp [hz, hbe, hb, low]
    · have hh : ¬i < 32 - amount := by omega
      have hn : i - (32 - amount) < 32 := by omega
      simp [hz, hbe, hb, hh, hi, ho hn]
  | false =>
    by_cases hz : amount = 0
    · simp [hz, hbe]
    by_cases hb : amount + i < 32
    · simp [hz, hbe, hb]
    · have hp : v.getLsbD (amount + i) = false := getLsbD_of_ge v _ (Nat.le_of_not_lt hb)
      simp [hz, hbe, hp]

theorem rotateExtend_eq (v : Word) (c : Bool) :
    (BitVec.ofBool c).setWidth 32 <<< 31 ||| v >>> 1 =
      cons c (v.extractLsb' 1 31) := by
  have hh : v.toNat >>> 1 % 2 ^ 31 = v.toNat >>> 1 := by
    omega
  apply eq_of_toNat_eq
  rw [toNat_cons, extractLsb'_toNat, hh, toNat_or, toNat_ushiftRight]
  cases c <;> rfl

section Operands
variable (x pc cpsr : Word) (rs : Registers)

theorem decodeArmImmediateShiftRegister_eq : decodeArmImmediateShiftRegister x pc cpsr rs =
      if bits x 4 4 = 1 then none
      else some (operandValue pc cpsr rs
        (.shifted (bits x 3 0) (bits x 6 5) (bits x 11 7))) := by
  have hs : bits x 11 7 < 32 := bits_lt x 11 7
  have hk : bits x 6 5 < 4 := bits_lt x 6 5
  unfold decodeArmImmediateShiftRegister
  rw [toNat_lowMask x 0xf 3 rfl, toNat_shiftMask x 3 6 5 rfl, toNat_shiftMask x 0x1f 11 7 rfl]
  refine if_congr (and_two_pow_ne_zero_iff x (by decide : 4 < 32)) rfl (congrArg some ?_)
  simp only [operandValue, decodeImmShift, shift_and_one, arithmeticShiftRightU32_eq _ hs,
    rotateRightU32_eq _ hs, rotateExtend_eq, hs, Nat.not_le.mpr hs, or_false, if_true]
  change _ = shift (armRegisterValue pc rs (bits x 3 0)) _ _ _
  generalize armRegisterValue pc rs (bits x 3 0) = value
  generalize bits x 11 7 = a
  interval_cases bits x 6 5
  · rfl
  · by_cases hz : a = 0
    · simp only [hz, if_true]
      exact (ushiftRight_eq_zero (Nat.le_refl 32)).symm
    · simp only [hz, if_false, shift]
  · rfl
  · by_cases hz : a = 0
    · simp only [hz, if_true, shift]
    · simp only [hz, if_false, shift]

theorem decodeArmOperand2_eq : decodeArmOperand2 x pc cpsr rs =
      if bits x 25 25 = 1 then some (operandValue pc cpsr rs (.immediate (bits x 11 0)))
      else if bits x 4 4 = 1 then none
      else some (operandValue pc cpsr rs
        (.shifted (bits x 3 0) (bits x 6 5) (bits x 11 7))) := by
  have hs : bits x 11 8 < 16 := bits_lt x 11 8
  have low : x &&& 0xff = BitVec.ofNat 32 (bits x 11 0 % 256) := by
    apply eq_of_toNat_eq
    rw [toNat_lowMask x 0xff 7 rfl, toNat_ofNat]
    simp only [bits]
    omega
  have ht : bits x 11 8 * 2 = 2 * (bits x 11 0 / 256) := by
    simp only [bits]
    omega
  unfold decodeArmOperand2
  rw [decodeArmImmediateShiftRegister_eq, toNat_shiftMask x 0xf 11 8 rfl,
    rotateRightU32_eq _ (by omega), low, ht]
  exact if_congr (and_two_pow_ne_zero_iff x (by decide : 25 < 32)) rfl rfl

theorem sub_eq_addWithCarry (rn o : Word) (c : Bool) :
    rn - o - (1 - (BitVec.ofBool c).setWidth 32) = addWithCarry rn (~~~o) c := by
  have hn : ~~~o = -o - 1 := by
    rw [neg_eq_not_add]
    exact (add_sub_cancel _ _).symm
  rw [addWithCarry, hn]
  cases c with
  | false =>
    grind
  | true =>
    grind

theorem dataProcessingResult_eq {opcode : ℕ} (rn o : Word) (c : Bool) :
    dataProcessingResult opcode rn o ((BitVec.ofBool c).setWidth 32) =
      (DataOperation.ofCode opcode).map (·.result rn o c) := by
  have sum : rn + o = addWithCarry rn o false := (BitVec.add_zero _).symm
  have hd (a b : Word) : a - b = addWithCarry a (~~~b) true := by
    rw [← sub_eq_addWithCarry]
    exact (BitVec.sub_zero _).symm
  have hs (c : Bool) :
      addWithCarry o (~~~rn) c = addWithCarry (~~~rn) o c := by
    rw [addWithCarry, addWithCarry, BitVec.add_comm o]
  unfold dataProcessingResult
  split
  case h_3 => exact congrArg some (hd rn o)
  case h_4 => exact congrArg some ((hd o rn).trans (hs true))
  case h_5 => exact congrArg some sum
  case h_7 => exact congrArg some (sub_eq_addWithCarry rn o c)
  case h_8 => exact congrArg some ((sub_eq_addWithCarry o rn c).trans (hs c))
  case h_13 => simp only [DataOperation.ofCode, Option.map_none]
  all_goals rfl

end Operands

end VitaDebugger.StepFields
