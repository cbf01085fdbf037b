import VitaDebugger.StepFields
import VitaDebugger.ThumbArchitecture

/-! The plans for Thumb instructions, one halfword and two, as the architecture states their
successors. -/

namespace VitaDebugger.ThumbPlan
open BitField ArmArchitecture ThumbArchitecture StepPlanner StepFields

section Halfword
variable {first : Halfword}

theorem conditionalBranch_iff : first &&& 0xf000 = 0xd000 ↔ bits first 15 12 = 13 :=
  and_eq_iff first [(15, 12, 13)] (by decide)

theorem condition_lt_iff : first &&& 0x0f00 < 0x0e00 ↔ bits first 11 8 < 14 := by
  rw [BitVec.lt_def, toNat_and_mask first 0x0f00 [(8, 4)] (by decide) (by decide)]
  simp only [fieldsOf, bits]
  change _ < 0x0e00 ↔ _
  omega

theorem branch_iff : first &&& 0xf800 = 0xe000 ↔ bits first 15 12 = 14 ∧ bits first 11 11 = 0 :=
  and_eq_iff first [(15, 12, 14), (11, 11, 0)] (by decide)

theorem compareBranch_iff : first &&& 0xf500 = 0xb100 ↔
    bits first 15 12 = 11 ∧ bits first 10 10 = 0 ∧ bits first 8 8 = 1 :=
  and_eq_iff first [(15, 12, 11), (10, 10, 0), (8, 8, 1)] (by decide)

theorem exchange_iff : first &&& 0xff00 = 0x4700 ↔ bits first 15 12 = 4 ∧ bits first 11 8 = 7 :=
  and_eq_iff first [(15, 12, 4), (11, 8, 7)] (by decide)

theorem plainExchange_iff : first &&& 0xff07 = 0x4700 ↔
    bits first 15 12 = 4 ∧ bits first 11 8 = 7 ∧ bits first 2 0 = 0 :=
  and_eq_iff first [(15, 12, 4), (11, 8, 7), (2, 0, 0)] (by decide)

theorem move_iff : first &&& 0xff87 = 0x4687 ↔
    bits first 15 12 = 4 ∧ bits first 11 8 = 6 ∧ bits first 7 7 = 1 ∧ bits first 2 0 = 7 :=
  and_eq_iff first [(15, 12, 4), (11, 8, 6), (7, 7, 1), (2, 0, 7)] (by decide)

theorem add_iff : first &&& 0xff87 = 0x4487 ↔
    bits first 15 12 = 4 ∧ bits first 11 8 = 4 ∧ bits first 7 7 = 1 ∧ bits first 2 0 = 7 :=
  and_eq_iff first [(15, 12, 4), (11, 8, 4), (7, 7, 1), (2, 0, 7)] (by decide)

end Halfword

variable {n : ℕ}

section Direct
variable (first : Halfword) {pc : Word} (cpsr : Word) (registers : Registers) (m : Memory)

theorem signExtend_doubled {v : Halfword} (hs : v.toNat * 2 < 2 ^ (n + 1))
    (hf : n < 32) : signExtendU32 (v.setWidth 32 <<< 1) (n + 1) =
      (BitVec.ofNat (n + 1) (v.toNat * 2)).signExtend 32 := by
  have hd : (v.setWidth 32 <<< 1 : Word).toNat = v.toNat * 2 := by
    rw [BitVec.toNat_shiftLeft, BitVec.toNat_setWidth, Nat.shiftLeft_eq]
    omega
  rw [signExtendU32_eq (by rw [hd]; exact hs) hf, hd]

theorem conditionalBranch_offset : signExtendU32 ((first &&& 0x00ff).setWidth 32 <<< 1) 9 =
      (BitVec.ofNat 9 (bits first 7 0 * 2)).signExtend 32 := by
  have hs : bits first 7 0 < 2 ^ 8 := bits_lt first 7 0
  have low := toNat_lowMask first 0x00ff 7 rfl
  rw [signExtend_doubled (n := 8) (by rw [low]; omega) (by decide), low]

theorem branch_offset : signExtendU32 ((first &&& 0x07ff).setWidth 32 <<< 1) 12 =
      (BitVec.ofNat 12 (bits first 10 0 * 2)).signExtend 32 := by
  have hs : bits first 10 0 < 2 ^ 11 := bits_lt first 10 0
  have low := toNat_lowMask first 0x07ff 10 rfl
  rw [signExtend_doubled (n := 11) (by rw [low]; omega) (by decide), low]

theorem compareBranch_offset :
    ((first &&& 0x0200) >>> 3).setWidth 32 + ((first &&& 0x00f8) >>> 2).setWidth 32 =
      BitVec.ofNat 32 (bits first 9 9 * 64 + bits first 7 3 * 2) := by
  have hh : (first &&& 0x0200).toNat = bits first 9 9 * 2 ^ 9 := by
    rw [toNat_and_mask first 0x0200 [(9, 1)] (by decide) (by decide)]
    simp only [fieldsOf, bits, Nat.add_zero]
  have low : (first &&& 0x00f8).toNat = bits first 7 3 * 2 ^ 3 := by
    rw [toNat_and_mask first 0x00f8 [(3, 5)] (by decide) (by decide)]
    simp only [fieldsOf, bits, Nat.add_zero]
  apply BitVec.eq_of_toNat_eq
  rw [BitVec.toNat_add, BitVec.toNat_setWidth, BitVec.toNat_setWidth, BitVec.toNat_ushiftRight,
    BitVec.toNat_ushiftRight, hh, low, Nat.shiftRight_eq_div_pow, Nat.shiftRight_eq_div_pow,
    BitVec.toNat_ofNat]
  omega

theorem compareBranch_taken (v : Word) :
    (if first &&& 0x0800 ≠ 0 then v != 0 else v == 0) =
      decide (decide (bits first 11 11 = 1) = (v != 0)) := by
  have hf : first &&& 0x0800 ≠ 0 ↔ bits first 11 11 = 1 :=
    and_two_pow_ne_zero_iff first (by decide : 11 < 16)
  by_cases hn : bits first 11 11 = 1
  · rw [if_pos (hf.mpr hn)]
    cases v != 0 <;> simp [hn]
  · rw [if_neg (fun set => hn (hf.mp set))]
    rw [Bool.eq_iff_iff]
    simp [hn]

theorem uvdbThumb16PlanDirectStep_fields (he : pc &&& 1 = 0) :
    uvdbThumb16PlanDirectStep first pc cpsr registers =
      if bits first 15 12 = 13 ∧ bits first 11 8 < 14 then
        planFor pc (thumbSuccessor m pc cpsr registers
          (.conditionalBranch (bits first 11 8) (bits first 7 0)))
      else if bits first 15 12 = 14 ∧ bits first 11 11 = 0 then
        planFor pc (thumbSuccessor m pc cpsr registers (.branch (bits first 10 0)))
      else if bits first 15 12 = 11 ∧ bits first 10 10 = 0 ∧ bits first 8 8 = 1 then
        planFor pc (thumbSuccessor m pc cpsr registers (.compareBranch
          (bits first 11 11 = 1) (bits first 9 9) (bits first 7 3) (bits first 2 0)))
      else if bits first 15 12 = 4 ∧ bits first 11 8 = 7 ∧ bits first 2 0 = 0 then
        if bits first 7 7 = 1 then planFor pc (thumbSuccessor m pc cpsr registers
          (.branchLinkExchangeRegister (bits first 6 3)))
        else planFor pc (thumbSuccessor m pc cpsr registers (.branchExchange (bits first 6 3)))
      else if bits first 15 12 = 4 ∧ bits first 11 8 = 7 then .refused
      else if bits first 15 12 = 4 ∧ bits first 11 8 = 6 ∧ bits first 7 7 = 1 ∧
          bits first 2 0 = 7 then
        planFor pc (thumbSuccessor m pc cpsr registers (.move (bits first 6 3)))
      else if bits first 15 12 = 4 ∧ bits first 11 8 = 4 ∧ bits first 7 7 = 1 ∧
          bits first 2 0 = 7 then
        if bits first 6 3 = 15 then .refused
        else setArmStepTarget ((pc + 4 &&& ~~~3) +
          registers (Fin.ofNat 16 (bits first 6 3))) true pc
      else .unknown := by
  have hr : (first >>> 3 &&& 0xf).toNat = bits first 6 3 := toNat_shiftMask first 0xf 6 3 rfl
  have hli : first &&& 0x0080 ≠ 0 ↔ bits first 7 7 = 1 :=
    and_two_pow_ne_zero_iff first (by decide : 7 < 16)
  have hep : ¬pc &&& 1 ≠ 0 := not_not.mpr he
  simp only [uvdbThumb16PlanDirectStep, hep, if_false, conditionalBranch_iff,
    condition_lt_iff, branch_iff, compareBranch_iff, plainExchange_iff, exchange_iff, move_iff,
    add_iff, hr, toNat_shiftMask first 0xf 11 8 rfl, toNat_lowMask first 7 2 rfl,
    conditionalBranch_offset, branch_offset, compareBranch_taken, BitVec.add_assoc (pc + 4),
    compareBranch_offset, hli, decide_eq_true_eq]
  by_cases hc : bits first 15 12 = 13 ∧ bits first 11 8 < 14
  · have ha := uvdbArmConditionPassed_eq cpsr (show bits first 11 8 < 15 by omega)
    rw [if_pos hc, if_pos hc, setArmStepTarget_thumb, ha, thumbSuccessor]
  rw [if_neg hc, if_neg hc]
  refine if_congr Iff.rfl ?_ (if_congr Iff.rfl ?_ (if_congr Iff.rfl ?_ (if_congr Iff.rfl rfl
    (if_congr Iff.rfl ?_ rfl))))
  · rw [setArmStepTarget_thumb, thumbSuccessor]
  · rw [setArmStepTarget_thumb, thumbSuccessor]
  · rw [setArmStepTarget_exchange]
    by_cases hl : bits first 7 7 = 1
    · rw [if_pos hl, thumbSuccessor]
      by_cases hpc : bits first 6 3 = 15
      · rw [if_pos ⟨hl, hpc⟩, if_pos hpc, planFor]
      · rw [if_neg (fun hb => hpc hb.2)]
        simp only [hpc, if_false, thumbRegister]
    · rw [if_neg (fun hb => hl hb.1), if_neg hl, thumbSuccessor]
      rfl
  · rw [setArmStepTarget_thumb, thumbSuccessor]
    rfl

/-- A short instruction is planned as its successor or refused; a pop is left to the caller. -/
theorem uvdbThumb16PlanDirectStep_eq (hev : pc &&& 1 = 0) (hk : decodeThumb16 first ≠ .other) :
    uvdbThumb16PlanDirectStep first pc cpsr registers = .refused ∨
      uvdbThumb16PlanDirectStep first pc cpsr registers =
        planFor pc (thumbSuccessor m pc cpsr registers (decodeThumb16 first)) ∨
      uvdbThumb16PlanDirectStep first pc cpsr registers = .unknown ∧
        bits first 15 12 = 11 ∧ bits first 11 8 = 13 := by
  rw [uvdbThumb16PlanDirectStep_fields first cpsr registers m hev]
  unfold decodeThumb16 at hk ⊢
  split at hk
  case h_1 hf =>
    simp only [hf] at hk ⊢
    rw [if_neg (by omega), if_neg (by omega), if_neg (by omega)]
    by_cases he : bits first 11 8 = 7
    · rw [if_pos he]
      by_cases hpl : bits first 2 0 = 0
      · rw [if_pos ⟨trivial, he, hpl⟩]
        have bit : bits first 7 7 < 2 := bits_lt first 7 7
        by_cases hl : bits first 7 7 = 1
        · exact Or.inr (Or.inl (by rw [if_pos hl, if_neg (by omega)]))
        · exact Or.inr (Or.inl (by rw [if_neg hl, if_pos (by omega)]))
      · rw [if_neg (by omega), if_pos ⟨trivial, he⟩]
        exact Or.inl rfl
    rw [if_neg he] at hk ⊢
    by_cases hm : bits first 11 8 = 6 ∧ bits first 7 7 = 1 ∧ bits first 2 0 = 7
    · rw [if_neg (by omega), if_neg (by omega), if_pos ⟨trivial, hm⟩, if_pos hm]
      exact Or.inr (Or.inl rfl)
    · exact absurd (if_neg hm) hk
  case h_2 hf =>
    simp only [hf] at hk ⊢
    rw [if_neg (by omega), if_neg (by omega)]
    by_cases hco : bits first 10 10 = 0 ∧ bits first 8 8 = 1
    · rw [if_pos ⟨trivial, hco⟩, if_pos hco]
      exact Or.inr (Or.inl rfl)
    rw [if_neg hco] at hk
    by_cases hp : bits first 11 8 = 13
    · rw [if_neg (by omega), if_neg (by omega), if_neg (by omega), if_neg (by omega),
        if_neg (by omega)]
      exact Or.inr (Or.inr ⟨rfl, trivial, hp⟩)
    · exact absurd (if_neg hp) hk
  case h_3 hf =>
    simp only [hf] at hk ⊢
    by_cases hc : bits first 11 8 < 14
    · rw [if_pos ⟨trivial, hc⟩, if_pos hc]
      exact Or.inr (Or.inl rfl)
    · exact absurd (if_neg hc) hk
  case h_4 hf =>
    simp only [hf] at hk ⊢
    by_cases hs : bits first 11 11 = 0
    · rw [if_neg (by omega), if_pos ⟨trivial, hs⟩, if_pos hs]
      exact Or.inr (Or.inl rfl)
    · exact absurd (if_neg hs) hk
  case h_5 => contradiction

theorem uvdbThumb16PlanDirectStep_wide (he : pc &&& 1 = 0) (hw : 29 ≤ bits first 15 11) :
    uvdbThumb16PlanDirectStep first pc cpsr registers = .unknown := by
  have hh : 14 ≤ bits first 15 12 := by
    simp only [bits] at hw ⊢
    omega
  have hl : ¬(bits first 15 12 = 14 ∧ bits first 11 11 = 0) := by
    simp only [bits] at hw ⊢
    omega
  rw [uvdbThumb16PlanDirectStep_fields first cpsr registers (fun _ => none) he,
    if_neg (by omega), if_neg hl, if_neg (by omega), if_neg (by omega), if_neg (by omega),
    if_neg (by omega), if_neg (by omega)]

theorem and_not_three_of_aligned {a : Word} (ha : a.toNat % 4 = 0) : a + 4 &&& ~~~3 = a + 4 := by
  rw [← clearLow_two]
  apply clearLow_of_aligned
  rw [BitVec.toNat_add]
  change (a.toNat + 4) % 2 ^ 32 % 4 = 0
  omega

theorem and_not_three_of_odd {a : Word} (ha : a.toNat % 4 = 2) : a + 4 &&& ~~~3 = a + 2 := by
  rw [← clearLow_two]
  apply BitVec.eq_of_toNat_eq
  rw [toNat_clearLow, BitVec.toNat_add, BitVec.toNat_add]
  change (a.toNat + 4) % 2 ^ 32 / 4 * 4 = (a.toNat + 2) % 2 ^ 32
  omega

theorem planFor_thumb_injective {x y : Word} (h : planFor pc (some (branchWritePC .thumb x)) =
    planFor pc (some (branchWritePC .thumb y))) : clearLow 1 x = clearLow 1 y := by
  simp only [planFor, branchWritePC, if_true] at h
  split at h <;> split at h
  · next hx hy => exact hx.trans hy.symm
  · cases h
  · cases h
  · exact (StepTarget.mk.inj (Plan.planned.inj h)).1

/-- `ADD PC, Rm` at an even address is planned at its sum exactly when the address is a multiple
of four. At the others the planner aligns the program counter first. -/
theorem thumb_add_pc_target (code : bits first 15 8 = 0x44) (high : bits first 7 7 = 1)
    (low : bits first 2 0 = 7) (other : bits first 6 3 ≠ 15) (even : pc.toNat % 2 = 0) :
    (addToPC pc registers (bits first 6 3)).state = .thumb ∧
    (addToPC pc registers (bits first 6 3)).address =
      clearLow 1 (pc + 4 + registers (Fin.ofNat 16 (bits first 6 3))) ∧
    ((uvdbThumb16PlanDirectStep first pc cpsr registers =
      if (addToPC pc registers (bits first 6 3)).address = pc then .refused
      else .planned ⟨(addToPC pc registers (bits first 6 3)).address, 2⟩) ↔ pc.toNat % 4 = 0) := by
  have hf : bits first 15 12 = 4 ∧ bits first 11 8 = 4 := by
    simp only [bits] at code ⊢
    omega
  have sum : addToPC pc registers (bits first 6 3) =
      branchWritePC .thumb (pc + 4 + registers (Fin.ofNat 16 (bits first 6 3))) := by
    simp [addToPC, thumbRegister, other]
  have he : pc &&& 1 = 0 := by
    rw [mask_eq_iff pc _ _ [(0, 1)] (by decide) (by decide)]
    simp only [fieldsOf]
    change _ = 0
    omega
  refine ⟨rfl, by rw [sum, branchWritePC], ?_⟩
  rw [uvdbThumb16PlanDirectStep_fields first cpsr registers (fun _ => none) he,
    if_neg (by omega), if_neg (by omega), if_neg (by omega), if_neg (by omega), if_neg (by omega),
    if_neg (by omega), if_pos ⟨hf.1, hf.2, high, low⟩, if_neg other, setArmStepTarget_thumb, sum]
  constructor
  · intro h
    by_contra hn
    rw [and_not_three_of_odd (by omega)] at h
    -- The two sums are two apart.
    have hs := congrArg BitVec.toNat (planFor_thumb_injective h)
    simp only [toNat_clearLow, BitVec.toNat_add] at hs
    change _ / 2 * 2 = ((pc.toNat + 4) % 2 ^ 32 + _) % 2 ^ 32 / 2 * 2 at hs
    change ((pc.toNat + 2) % 2 ^ 32 + _) % 2 ^ 32 / 2 * 2 = _ at hs
    omega
  · intro aligned
    rw [and_not_three_of_aligned aligned]
    rfl

/-- `add pc, r0` with four in the register. -/
theorem thumb_add_pc_target_aligned :
    uvdbThumb16PlanDirectStep 0x4487 0x1000 0 (fun _ => 4) = .planned ⟨0x1008, 2⟩ :=
  (thumb_add_pc_target 0x4487 0 (fun _ => 4) (by decide) (by decide) (by decide) (by decide)
    (by decide)).2.2.mpr (by decide)

theorem thumb_add_pc_misplaced :
    uvdbThumb16PlanDirectStep 0x4487 0x1002 0 (fun _ => 4) = .planned ⟨0x1008, 2⟩ ∧
      addToPC 0x1002 (fun _ => 4) 0 = ⟨0x100a, .thumb⟩ := by
  decide

end Direct

section Wide
variable (first second : Halfword) {pc : Word} (cpsr : Word) (rs : Registers)
  (memory : Memory)

theorem toNat_shiftLeft_or {high low : Word} (hf : high.toNat * 2 ^ n < 2 ^ 32)
    (hs : low.toNat < 2 ^ n) : (high <<< n ||| low).toNat = high.toNat * 2 ^ n + low.toNat := by
  rw [BitVec.toNat_or, BitVec.toNat_shiftLeft, Nat.shiftLeft_eq, Nat.mod_eq_of_lt hf,
    Nat.mul_comm, Nat.two_pow_add_eq_or_of_lt hs]

theorem bits_setWidth (high low : ℕ) :
    bits (first.setWidth 32 : Word) high low = bits first high low := by
  rw [bits, bits, BitVec.toNat_setWidth, Nat.mod_eq_of_lt (show first.toNat < 2 ^ 32 by omega)]

theorem toNat_bit (i : ℕ) : (first.setWidth 32 >>> i &&& 1 : Word).toNat = bits first i i := by
  rw [toNat_shiftMask _ 1 i i (by simp), bits_setWidth]

theorem toNat_field (high : ℕ) (mask : Halfword) (hs : mask.toNat = 2 ^ (high + 1) - 1) :
    ((first &&& mask).setWidth 32 : Word).toNat = bits first high 0 := by
  rw [BitVec.toNat_setWidth, Nat.mod_eq_of_lt (by omega), toNat_lowMask first mask high hs]

theorem toNat_notXor (j s : Word) : (notXor j s).toNat = highBit j.toNat s.toNat := by
  have hz : j ^^^ s = 0 ↔ j = s := BitVec.xor_eq_zero_iff
  simp only [notXor, highBit, hz, BitVec.toNat_inj]
  split <;> rfl

theorem highBit_lt (j s : ℕ) : highBit j s < 2 := by
  unfold highBit
  split <;> decide

theorem toNat_low :
    ((second &&& 0x07ff).setWidth 32 <<< 1 : Word).toNat = bits second 10 0 * 2 := by
  have hs : bits second 10 0 < 2 ^ 11 := bits_lt second 10 0
  rw [BitVec.toNat_shiftLeft, toNat_field second 10 0x07ff rfl, Nat.shiftLeft_eq]
  omega

/-- The pieces of a wide branch's offset do not overlap. -/
theorem toNat_pieces {a b c d e : Word} (hf : n ≤ 22) (hab : a.toNat < 2) (hbb : b.toNat < 2)
    (hcb : c.toNat < 2) (hdf : d.toNat * 2 ^ 12 + 2 ^ 12 ≤ 2 ^ n) (hef : e.toNat < 2 ^ 12) :
    (a <<< (n + 2) ||| b <<< (n + 1) ||| c <<< n ||| d <<< 12 ||| e).toNat =
      a.toNat * 2 ^ (n + 2) + b.toNat * 2 ^ (n + 1) + c.toNat * 2 ^ n + d.toNat * 2 ^ 12 +
        e.toNat := by
  have hp : 2 ^ n ≤ 2 ^ 22 := Nat.pow_le_pow_right (by decide) hf
  have hn : 2 ^ (n + 1) = 2 * 2 ^ n := Nat.pow_succ'
  have hl : 2 ^ (n + 2) = 4 * 2 ^ n := by rw [Nat.pow_succ', hn]; omega
  have hs {x : ℕ} (bit : x < 2) (m : ℕ) : x * m ≤ m := by
    have one : x ≤ 1 := by omega
    exact (Nat.mul_le_mul_right m one).trans (Nat.one_mul m).le
  have hcp := hs hcb (2 ^ n)
  have hbp := hs hbb (2 ^ (n + 1))
  have hap := hs hab (2 ^ (n + 2))
  have hds : (d <<< 12 ||| e).toNat = d.toNat * 2 ^ 12 + e.toNat :=
    toNat_shiftLeft_or (by omega) hef
  have hcs := toNat_shiftLeft_or (show c.toNat * 2 ^ n < 2 ^ 32 by omega)
    (show (d <<< 12 ||| e).toNat < 2 ^ n by omega)
  have hbs := toNat_shiftLeft_or (show b.toNat * 2 ^ (n + 1) < 2 ^ 32 by omega)
    (show (c <<< n ||| (d <<< 12 ||| e)).toNat < 2 ^ (n + 1) by omega)
  have has := toNat_shiftLeft_or (show a.toNat * 2 ^ (n + 2) < 2 ^ 32 by omega)
    (show (b <<< (n + 1) ||| (c <<< n ||| (d <<< 12 ||| e))).toNat < 2 ^ (n + 2) by omega)
  rw [BitVec.or_assoc, BitVec.or_assoc, BitVec.or_assoc]
  omega

/-- The offset of a wide branch, its high bits stored as complemented exclusive ors. -/
theorem wideBranch_offset : signExtendU32 ((first.setWidth 32 >>> 10 &&& 1) <<< 24 |||
        notXor (second.setWidth 32 >>> 13 &&& 1) (first.setWidth 32 >>> 10 &&& 1) <<< 23 |||
        notXor (second.setWidth 32 >>> 11 &&& 1) (first.setWidth 32 >>> 10 &&& 1) <<< 22 |||
        (first &&& 0x03ff).setWidth 32 <<< 12 ||| (second &&& 0x07ff).setWidth 32 <<< 1) 25 =
      wideOffset (bits first 10 10) (bits second 13 13) (bits second 11 11) (bits first 9 0)
        (bits second 10 0) := by
  have low := toNat_low second
  have hm := toNat_field first 9 0x03ff rfl
  have hsb := toNat_bit first 10
  have hfb (i : ℕ) : (notXor (second.setWidth 32 >>> i &&& 1)
      (first.setWidth 32 >>> 10 &&& 1)).toNat = highBit (bits second i i) (bits first 10 10) := by
    rw [toNat_notXor, hsb, toNat_bit]
  have s : bits first 10 10 < 2 := bits_lt first 10 10
  have i1 := highBit_lt (bits second 13 13) (bits first 10 10)
  have i2 := highBit_lt (bits second 11 11) (bits first 10 10)
  have hi : bits first 9 0 < 2 ^ 10 := bits_lt first 9 0
  have him : bits second 10 0 < 2 ^ 11 := bits_lt second 10 0
  have hp := toNat_pieces (n := 22) (by decide) (by rwa [hsb])
    (by rwa [hfb 13]) (by rwa [hfb 11]) (by rw [hm]; omega) (by rw [low]; omega)
  rw [hsb, hfb 13, hfb 11, hm, low] at hp
  rw [signExtendU32_eq (n := 24) (by rw [hp]; omega) (by decide), hp, wideOffset]

theorem wideConditionalBranch_offset : signExtendU32 ((first.setWidth 32 >>> 10 &&& 1) <<< 20 |||
        (second.setWidth 32 >>> 11 &&& 1) <<< 19 ||| (second.setWidth 32 >>> 13 &&& 1) <<< 18 |||
        (first &&& 0x003f).setWidth 32 <<< 12 ||| (second &&& 0x07ff).setWidth 32 <<< 1) 21 =
      (BitVec.ofNat 21 (bits first 10 10 * 2 ^ 20 + bits second 11 11 * 2 ^ 19 +
        bits second 13 13 * 2 ^ 18 + bits first 5 0 * 2 ^ 12 +
        bits second 10 0 * 2)).signExtend 32 := by
  have low := toNat_low second
  have hm := toNat_field first 5 0x003f rfl
  have s : bits first 10 10 < 2 := bits_lt first 10 10
  have j2 : bits second 11 11 < 2 := bits_lt second 11 11
  have j1 : bits second 13 13 < 2 := bits_lt second 13 13
  have him : bits first 5 0 < 2 ^ 6 := bits_lt first 5 0
  have hi : bits second 10 0 < 2 ^ 11 := bits_lt second 10 0
  have hp := toNat_pieces (n := 18) (by decide) (by rwa [toNat_bit first 10])
    (by rwa [toNat_bit second 11]) (by rwa [toNat_bit second 13]) (by rw [hm]; omega)
    (by rw [low]; omega)
  rw [toNat_bit, toNat_bit, toNat_bit, hm, low] at hp
  rw [signExtendU32_eq (n := 20) (by rw [hp]; omega) (by decide), hp]

theorem wideFamily_iff : first &&& 0xf800 = 0xf000 ↔ bits first 15 11 = 0x1e :=
  and_eq_iff first [(15, 11, 0x1e)] (by decide)

theorem exchangeForm_iff : second &&& 0xd001 = 0xc000 ↔
    bits second 15 15 = 1 ∧ bits second 14 14 = 1 ∧ bits second 12 12 = 0 ∧ bits second 0 0 = 0 :=
  and_eq_iff second [(15, 15, 1), (14, 14, 1), (12, 12, 0), (0, 0, 0)] (by decide)

theorem conditionalForm_iff : second &&& 0xd000 = 0x8000 ↔
    bits second 15 15 = 1 ∧ bits second 14 14 = 0 ∧ bits second 12 12 = 0 :=
  and_eq_iff second [(15, 15, 1), (14, 14, 0), (12, 12, 0)] (by decide)

theorem conditionField_iff : first &&& 0x0380 = 0x0380 ↔ bits first 9 7 = 7 :=
  and_eq_iff first [(9, 7, 7)] (by decide)

theorem uvdbThumb32PlanBranchStep_unknown (he : pc &&& 1 = 0)
    (hs : ¬(bits first 15 11 = 0x1e ∧ bits second 15 15 = 1)) :
    uvdbThumb32PlanBranchStep first second pc cpsr = .unknown := by
  have top : second &&& 0x8000 = 0 ↔ ¬bits second 15 15 = 1 := by
    rw [← not_iff_not, not_not]
    exact and_two_pow_ne_zero_iff second (by decide : 15 < 16)
  simp only [uvdbThumb32PlanBranchStep, he, ne_eq, not_true_eq_false, if_false, wideFamily_iff, top]
  exact if_pos (not_and_or.mp hs)

theorem aligned_exchange (a : Word) (s j1 j2 i imm10L : ℕ) :
    clearLow 2 a + wideOffset s j1 j2 i (imm10L * 2) &&& 3 = 0 := by
  rw [and_three_iff, BitVec.toNat_add, toNat_clearLow, wideOffset, BitVec.toNat_signExtend,
    BitVec.toNat_setWidth, BitVec.toNat_ofNat]
  split <;> omega

theorem uvdbThumb32PlanBranchStep_eq (hev : pc &&& 1 = 0) (hf : bits first 15 11 = 0x1e)
    (hb : bits second 15 15 = 1) (hk : decodeBranch first second ≠ .other) :
    uvdbThumb32PlanBranchStep first second pc cpsr =
      planFor pc (thumbSuccessor memory pc cpsr rs (decodeBranch first second)) := by
  have top : ¬second &&& 0x8000 = 0 := (and_two_pow_ne_zero_iff second (by decide : 15 < 16)).mpr hb
  have hl : second &&& 0x1000 ≠ 0 ↔ bits second 12 12 = 1 :=
    and_two_pow_ne_zero_iff second (by decide : 12 < 16)
  have hbt : bits second 14 14 < 2 := bits_lt second 14 14
  have hbi : bits second 12 12 < 2 := bits_lt second 12 12
  have hp : ¬(first &&& 0xf800 ≠ 0xf000 ∨ second &&& 0x8000 = 0) := by
    rintro (hu | hc)
    · exact hu ((wideFamily_iff first).mpr hf)
    · exact top hc
  simp only [uvdbThumb32PlanBranchStep, not_not.mpr hev, hp, if_false, hl, exchangeForm_iff,
    conditionalForm_iff, wideBranch_offset, wideConditionalBranch_offset]
  by_cases hw : bits second 12 12 = 1
  · have hst : (second &&& 0x1000 == 0) = false := beq_eq_false_iff_ne.mpr (hl.mpr hw)
    rw [if_pos (Or.inl hw), hst, decodeBranch, if_pos hw, thumbSuccessor]
    exact setArmStepTarget_thumb _ pc
  have hn : bits second 12 12 = 0 := by omega
  have ht : (second &&& 0x1000 == 0) = true := by
    rw [beq_iff_eq, ← not_not (a := second &&& 0x1000 = 0)]
    exact fun set => hw (hl.mp set)
  rw [decodeBranch, if_neg hw] at hk ⊢
  by_cases he : bits second 14 14 = 1
  · rw [if_pos he] at hk ⊢
    by_cases low : bits second 0 0 = 1
    · exact absurd (if_pos low) hk
    have hc : bits second 0 0 = 0 := by
      have bit : bits second 0 0 < 2 := bits_lt second 0 0
      omega
    have hh : bits second 10 0 = bits second 10 1 * 2 := by
      simp only [bits] at hc ⊢
      omega
    rw [if_pos (Or.inr ⟨hb, he, hn, hc⟩), if_neg low, ht, thumbSuccessor, ← clearLow_two, hh]
    simp only [Bool.not_true, if_true]
    rw [setArmStepTarget_arm pc (aligned_exchange _ _ _ _ _ _)]
  rw [if_neg he] at hk ⊢
  by_cases ha : bits first 9 7 = 7
  · exact absurd (if_pos ha) hk
  have hs : bits first 9 6 < 15 := by
    have hfi : bits first 9 6 < 16 := bits_lt first 9 6
    simp only [bits] at hfi ha ⊢
    omega
  have hz : bits second 14 14 = 0 := by omega
  have hco : ¬(bits second 12 12 = 1 ∨ bits second 15 15 = 1 ∧ bits second 14 14 = 1 ∧
      bits second 12 12 = 0 ∧ bits second 0 0 = 0) := by omega
  rw [if_neg hco, if_pos ⟨⟨hb, hz, hn⟩, fun hsa => ha
    ((conditionField_iff first).mp hsa)⟩, if_neg ha, thumbSuccessor,
    toNat_shiftMask first 0xf 9 6 rfl, uvdbArmConditionPassed_eq cpsr hs]
  exact setArmStepTarget_thumb _ pc

theorem loadFamily_iff : ¬(first &&& 0xff70 ≠ 0xf850 ∨ second &&& 0xf000 ≠ 0xf000) ↔
    bits first 15 8 = 0xf8 ∧ bits first 6 4 = 5 ∧ bits second 15 12 = 15 := by
  have hl : first &&& 0xff70 = 0xf850 ↔ bits first 15 8 = 0xf8 ∧ bits first 6 4 = 5 :=
    and_eq_iff first [(15, 8, 0xf8), (6, 4, 5)] (by decide)
  have ht : second &&& 0xf000 = 0xf000 ↔ bits second 15 12 = 15 :=
    and_eq_iff second [(15, 12, 15)] (by decide)
  rw [not_or, not_not, not_not, hl, ht, and_assoc]

theorem immediate_eq (high : ℕ) (mask : Halfword) (hs : mask.toNat = 2 ^ (high + 1) - 1) :
    ((second &&& mask).setWidth 32 : Word) = BitVec.ofNat 32 (bits second high 0) := by
  have hv := toNat_field second high mask hs
  rw [← hv, BitVec.ofNat_toNat, BitVec.setWidth_eq]

/-- A planned load reads the word the architecture loads into the program counter. -/
theorem uvdbThumb32PlanLoadPcAddress_eq (he : pc &&& 1 = 0)
    (hlo : bits first 15 8 = 0xf8 ∧ bits first 6 4 = 5 ∧ bits second 15 12 = 15) :
    uvdbThumb32PlanLoadPcAddress first second pc rs = .refused ∨
      ∃ address, uvdbThumb32PlanLoadPcAddress first second pc rs = .planned address ∧
        thumbSuccessor memory pc cpsr rs (decodeThumbLoad first second) =
          loadWritePC memory address := by
  have up : first &&& 0x0080 ≠ 0 ↔ bits first 7 7 = 1 :=
    and_two_pow_ne_zero_iff first (by decide : 7 < 16)
  have hin : second &&& 0x0800 ≠ 0 ↔ bits second 11 11 = 1 :=
    and_two_pow_ne_zero_iff second (by decide : 11 < 16)
  have hi : second &&& 0x0400 ≠ 0 ↔ bits second 10 10 = 1 :=
    and_two_pow_ne_zero_iff second (by decide : 10 < 16)
  have add : second &&& 0x0200 ≠ 0 ↔ bits second 9 9 = 1 :=
    and_two_pow_ne_zero_iff second (by decide : 9 < 16)
  have hw : second &&& 0x0100 ≠ 0 ↔ bits second 8 8 = 1 :=
    and_two_pow_ne_zero_iff second (by decide : 8 < 16)
  have hr : second &&& 0x0fc0 = 0 ↔ bits second 11 6 = 0 :=
    and_eq_iff second [(11, 6, 0)] (by decide)
  unfold uvdbThumb32PlanLoadPcAddress decodeThumbLoad
  simp only [not_not.mpr he, (loadFamily_iff first second).mpr hlo, if_false,
    toNat_lowMask first 0xf 3 rfl, up, hin, hr, immediate_eq second 11 0x0fff rfl,
    immediate_eq second 7 0x00ff rfl, ← clearLow_two]
  by_cases hl : bits first 3 0 = 15
  · rw [if_pos hl, if_pos hl, if_pos hl]
    refine Or.inr ⟨_, rfl, ?_⟩
    simp only [thumbSuccessor, decide_eq_true_eq]
  rw [if_neg hl, if_neg hl, if_neg hl]
  by_cases hp : bits first 7 7 = 1
  · rw [if_pos hp, if_pos hp]
    exact Or.inr ⟨_, rfl, rfl⟩
  rw [if_neg hp, if_neg hp]
  by_cases hf : bits second 11 11 = 1
  · have hbi : bits second 10 10 < 2 := bits_lt second 10 10
    have hbt : bits second 8 8 < 2 := bits_lt second 8 8
    have huf : second &&& 0x0400 = 0 ∧ second &&& 0x0100 = 0 ↔
        bits second 10 10 = 0 ∧ bits second 8 8 = 0 := by
      rw [← not_not (a := second &&& 0x0400 = 0), ← not_not (a := second &&& 0x0100 = 0),
        ← ne_eq, ← ne_eq, hi, hw]
      omega
    rw [if_pos hf, if_pos hf]
    by_cases hm : bits second 10 10 = 0 ∧ bits second 8 8 = 0
    · exact Or.inl (if_pos (huf.mpr hm))
    · refine Or.inr ⟨_, if_neg (fun hb => hm (huf.mp hb)), ?_⟩
      rw [if_neg hm]
      simp only [thumbSuccessor, thumbLoadAddress, hi, add, decide_eq_true_eq]
  rw [if_neg hf, if_neg hf]
  by_cases hs : bits second 11 6 = 0
  · rw [if_pos hs, if_pos hs]
    split
    · exact Or.inl rfl
    · refine Or.inr ⟨_, rfl, ?_⟩
      rw [toNat_lowMask second 0xf 3 rfl, toNat_shiftMask second 3 5 4 rfl]
      rfl
  · exact Or.inl (if_neg hs)

end Wide

end VitaDebugger.ThumbPlan
