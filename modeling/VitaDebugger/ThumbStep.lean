import VitaDebugger.StepTraps
import VitaDebugger.ThumbPlan

/-! A step over a Thumb instruction that branches or loads the program counter: it is refused, or
its trap is at the architectural successor. -/

namespace VitaDebugger.ThumbStep
open List Option BitVec
open BitField ArmArchitecture ThumbArchitecture StepPlanner StepInsertion StepFields StepTraps
open ThumbPlan

/-- The outcome of a step that may be refused but waits for no other place. -/
def Follows (pc : Word) (next : Option Successor) (outcome : StepOutcome) : Prop :=
  outcome = .refused ∨ outcome = trapFor pc next

section Successors
variable {memory : Memory} {pc cpsr : Word} {registers : Registers}

theorem loadWritePC_aligned {a : Word} {next : Successor}
    (hl : loadWritePC memory a = some next) : Successor.Aligned next := by
  unfold loadWritePC at hl
  split at hl
  · obtain ⟨word, _, hw⟩ := bind_eq_some_iff.mp hl
    exact bxWritePC_aligned hw
  · cases hl

theorem thumbSuccessor_aligned {ins : ThumbInstruction} {next : Successor}
    (hf : thumbSuccessor memory pc cpsr registers ins = some next) :
    Successor.Aligned next := by
  cases ins with
  | conditionalBranch cond imm8 =>
    cases hf
    exact branchWritePC_aligned .thumb _
  | branch im =>
    cases hf
    exact branchWritePC_aligned .thumb _
  | compareBranch nonzero i imm5 rn =>
    cases hf
    exact branchWritePC_aligned .thumb _
  | branchExchange rm => exact bxWritePC_aligned hf
  | branchLinkExchangeRegister rm =>
    simp only [thumbSuccessor] at hf
    split at hf
    · cases hf
    · exact bxWritePC_aligned hf
  | move rm =>
    cases hf
    exact branchWritePC_aligned .thumb _
  | wideConditionalBranch cond s j2 j1 imm6 im =>
    cases hf
    exact branchWritePC_aligned .thumb _
  | wideBranch s j1 j2 imm im =>
    cases hf
    exact branchWritePC_aligned .thumb _
  | branchLinkExchange s j1 j2 imm imm10L =>
    cases hf
    exact branchWritePC_aligned .arm _
  | tableBranch rn rm halfwords =>
    obtain ⟨entry, _, hw⟩ := bind_eq_some_iff.mp hf
    cases hw
    exact branchWritePC_aligned .thumb _
  | loadMultiple before rn list => exact loadWritePC_aligned hf
  | loadLiteral add imm12 => exact loadWritePC_aligned hf
  | load rn offset => exact loadWritePC_aligned hf
  | other => cases hf

theorem insertLoaded_follows (memory : Memory) (a : Word) (he : pc &&& 1 = 0) :
    Follows pc (loadWritePC memory a) (insertLoaded memory a pc) := by
  unfold insertLoaded loadWritePC
  have hv : uvdbStepWordAddressValid a = true ↔ a.toNat % 4 = 0 := by
    rw [uvdbStepWordAddressValid, beq_iff_eq, and_three_iff]
  by_cases ha : a.toNat % 4 = 0
  · rw [hv.mpr ha, if_pos ha, if_neg (by decide)]
    cases readWord memory a with
    | none => exact Or.inl rfl
    | some word => exact Or.inr (breakpointInsertStepTarget_eq word he)
  have bad : uvdbStepWordAddressValid a = false := by
    rw [← Bool.not_eq_true, hv]
    exact ha
  rw [bad]
  exact Or.inl rfl

end Successors

section Narrow
variable (memory : Memory) (first second : Halfword) {pc : Word} (core : CoreRegisters)

theorem pop_iff : first &&& 0xff00 = 0xbd00 ↔ bits first 15 12 = 11 ∧ bits first 11 8 = 13 :=
  and_eq_iff first [(15, 12, 11), (11, 8, 13)] (by decide)

theorem ifThen_iff : first &&& 0xff00 = 0xbf00 ↔ bits first 15 12 = 11 ∧ bits first 11 8 = 15 :=
  and_eq_iff first [(15, 12, 11), (11, 8, 15)] (by decide)

theorem popAddress : transferAddress (core.r 13) (BitVec.ofNat 16 (2 ^ 15 + bits first 7 0)) 15 =
      core.r 13 + BitVec.ofNat 32 (popcount (first &&& 0xff) * 4) := by
  have low := toNat_lowMask first 0xff 7 rfl
  have hs : bits first 7 0 < 2 ^ 8 := bits_lt first 7 0
  have hl (i : ℕ) (hb : i < 15) :
      (BitVec.ofNat 16 (2 ^ 15 + bits first 7 0)).getLsbD i = (first &&& 0xff).getLsbD i := by
    rw [getLsbD, toNat_ofNat, Nat.mod_eq_of_lt (by omega),
      Nat.testBit_two_pow_add_gt hb, getLsbD, low]
  have hla : (first &&& 0xff).getLsbD 15 = false := by
    exact Nat.testBit_lt_two_pow (by omega)
  have hc : (List.range 15).countP
      (fun i => (BitVec.ofNat 16 (2 ^ 15 + bits first 7 0)).getLsbD i) =
      popcount (first &&& 0xff) := by
    rw [popcount, show List.range 16 = List.range 15 ++ [15] from rfl, countP_append,
      countP_singleton, hla]
    apply countP_congr
    intro i hi
    rw [hl i (mem_range.mp hi)]
  rw [transferAddress_eq, hc, Nat.mul_comm]

theorem insertThumbDecoded_narrow (he : pc &&& 1 = 0) (hk : decodeThumb16 first ≠ .other) :
    Follows pc (thumbSuccessor memory pc core.cpsr core.r (decodeThumb16 first))
      (insertThumbDecoded memory first second pc core 0) := by
  unfold insertThumbDecoded
  rcases uvdbThumb16PlanDirectStep_eq first core.cpsr core.r memory he hk with
    hr | hdi | ⟨hlo, hf, hp⟩
  · rw [hr]
    exact Or.inl rfl
  · rw [hdi]
    rcases planFor_cases pc (fun _ => thumbSuccessor_aligned) with hr | ⟨target, hpl, ht⟩
    · rw [hr]
      exact Or.inl rfl
    · rw [hpl]
      exact Or.inr ht
  have hpa : ¬(first &&& 0xff00 = 0xbf00 ∧ first &&& 0x000f ≠ 0 ∧ first &&& 0x00f0 ≠ 0x00f0) := by
    rw [ifThen_iff]
    omega
  have hd : decodeThumb16 first =
      .loadMultiple false 13 (BitVec.ofNat 16 (2 ^ 15 + bits first 7 0)) := by
    have hu : ¬(bits first 10 10 = 0 ∧ bits first 8 8 = 1) := by
      simp only [bits] at hp ⊢
      omega
    simp only [decodeThumb16, hf, hu, hp, if_true, if_false]
  rw [hlo, if_neg hpa, if_pos ((pop_iff first).mpr ⟨hf, hp⟩), hd]
  change Follows pc (loadWritePC memory (transferAddress (core.r 13) _ 15))
    (insertPop memory first pc core)
  rw [popAddress]
  exact insertLoaded_follows memory _ he

end Narrow

section Wide
variable (m : Memory) (f s : Halfword) {pc : Word} (core : CoreRegisters)

theorem lead_iff (v : Halfword) (lead : ℕ) (hc : v.toNat = lead * 16) :
    f &&& 0xfff0 = v ↔ bits f 15 4 = lead := by
  rw [mask_eq_iff f _ _ [(4, 12)] (by decide) (by decide), hc]
  simp only [fieldsOf, bits]
  omega

theorem tableBranch_iff : (f &&& 0xfff0 = 0xe8d0 ∧ s &&& 0xffe0 = 0xf000) ↔
    bits f 15 4 = 0xe8d ∧ bits s 15 5 = 0x780 := by
  have hr : s &&& 0xffe0 = 0xf000 ↔ bits s 15 5 = 0x780 :=
    and_eq_iff s [(15, 5, 0x780)] (by decide)
  rw [lead_iff f 0xe8d0 0xe8d rfl, hr]

theorem loadMultiple_iff (v : Halfword) (lead : ℕ) (hc : v.toNat = lead * 64 + 16) :
    (f &&& 0xffd0 = v ∧ s &&& 0x8000 ≠ 0) ↔
      bits f 15 6 = lead ∧ bits f 4 4 = 1 ∧ bits s 15 15 = 1 := by
  have hs : s &&& 0x8000 ≠ 0 ↔ bits s 15 15 = 1 :=
    and_two_pow_ne_zero_iff s (by decide : 15 < 16)
  rw [mask_eq_iff f _ _ [(6, 10), (4, 1)] (by decide) (by decide), hs, hc]
  simp only [fieldsOf, bits]
  omega

theorem exclusive_false (hk : decodeThumb32 f s ≠ .other) :
    uvdbThumb32InstructionStartsExclusive f s = false := by
  have hsi : s &&& 0x00c0 = 0x0040 ↔ bits s 7 6 = 1 :=
    and_eq_iff s [(7, 6, 1)] (by decide)
  rw [uvdbThumb32InstructionStartsExclusive, decide_eq_false_iff_not, lead_iff f 0xe850 0xe85 rfl,
    lead_iff f 0xe8d0 0xe8d rfl, hsi]
  intro he
  have hs : ¬(bits f 15 11 = 0x1e ∧ bits s 15 15 = 1) ∧
      ¬(bits f 15 4 = 0xe8d ∧ bits s 15 5 = 0x780) ∧ bits f 15 6 ≠ 0x3a2 ∧
      bits f 15 6 ≠ 0x3a4 ∧ bits f 15 8 ≠ 0xf8 := by
    simp only [bits] at he ⊢
    omega
  obtain ⟨hbr, ht, ha, hb, hl⟩ := hs
  apply hk
  rw [decodeThumb32, if_neg hbr, if_neg ht, if_neg (fun all => ha all.1),
    if_neg (fun all => hb all.1), if_neg (fun all => hl all.1)]

section
variable (even : pc &&& 1 = 0)
include even

theorem insertTableBranch_follows : Follows pc (thumbSuccessor m pc core.cpsr core.r
        (.tableBranch (bits f 3 0) (bits s 3 0) (bits s 4 4 = 1)))
      (insertTableBranch m f s pc core) := by
  have bit : bits s 4 4 < 2 := bits_lt s 4 4
  simp only [insertTableBranch, toNat_lowMask f 0xf 3 rfl, toNat_lowMask s 0xf 3 rfl,
    toNat_shiftMask s 1 4 4 rfl]
  split
  · exact Or.inl rfl
  case isFalse hu =>
  have hi : thumbRegister pc core.r (bits s 3 0) = core.r (Fin.ofNat 16 (bits s 3 0)) :=
    if_neg (fun hpc => hu (Or.inr (Or.inr hpc)))
  have hb : (if bits f 3 0 = 15 then pc + 4 else core.r (Fin.ofNat 16 (bits f 3 0))) =
      thumbRegister pc core.r (bits f 3 0) := rfl
  have ht (e : Word) : breakpointInsertStepTargetSized (pc + 4 + e * 2) 2 pc =
      trapFor pc (some (branchWritePC .thumb (pc + 4 + 2 * e))) := by
    rw [breakpointInsertStepTargetSized_thumb _ even, BitVec.mul_comm]
  simp only [thumbSuccessor, hi, tableEntry, decide_eq_true_eq, hb]
  by_cases hh : bits s 4 4 = 1
  · simp only [hh, ne_eq, one_ne_zero, not_false_eq_true, if_true]
    cases readHalfword m (thumbRegister pc core.r (bits f 3 0) +
        core.r (Fin.ofNat 16 (bits s 3 0)) <<< 1) with
    | none => exact Or.inl rfl
    | some e => exact Or.inr (ht (e.setWidth 32))
  have hz : bits s 4 4 = 0 := by omega
  simp only [hz, ne_eq, not_true_eq_false, zero_ne_one, if_false, shiftLeft_zero]
  cases m (thumbRegister pc core.r (bits f 3 0) +
      core.r (Fin.ofNat 16 (bits s 3 0))) with
  | none => exact Or.inl rfl
  | some e =>
    have hw : ((e.setWidth 16).setWidth 32 : Word) = e.setWidth 32 := by
      apply eq_of_toNat_eq
      simp only [toNat_setWidth]
      omega
    simp only [map_some, hw]
    exact Or.inr (ht (e.setWidth 32))

theorem insertLoadMultipleAfter_follows : Follows pc (thumbSuccessor m pc core.cpsr core.r
        (.loadMultiple false (bits f 3 0) s))
      (insertLoadMultipleAfter m f s pc core) := by
  have hc : popcount (s &&& 0x7fff) =
      (List.range 15).countP fun i => s.getLsbD i := popcount_low s _ (by decide) rfl
  unfold insertLoadMultipleAfter
  split
  · exact Or.inl rfl
  simp only [thumbSuccessor, startAddress, Bool.not_false]
  rw [transferAddress_eq, ← hc, toNat_lowMask f 0xf 3 rfl, Nat.mul_comm]
  exact insertLoaded_follows m _ even

theorem insertLoadMultipleBefore_follows (hs : bits s 15 15 = 1) :
    Follows pc (thumbSuccessor m pc core.cpsr core.r
        (.loadMultiple true (bits f 3 0) s))
      (insertLoadMultipleBefore m f s pc core) := by
  have hl : s.getLsbD 15 = true := by
    rw [getLsbD, Nat.testBit_eq_decide_div_mod_eq, decide_eq_true_iff]
    exact hs
  have ht : bitCount s = ((List.range 15).countP fun i => s.getLsbD i) + 1 := by
    rw [bitCount, show List.range 16 = List.range 15 ++ [15] from rfl, countP_append,
      countP_singleton, hl]
    rfl
  have ha (base : Word) : transferAddress (startAddress true false base s) s 15 =
      base - 4 := by
    rw [transferAddress_eq, startAddress, ht, Nat.mul_add, ofNat_add]
    grind
  unfold insertLoadMultipleBefore
  split
  · exact Or.inl rfl
  simp only [thumbSuccessor, Bool.not_true]
  rw [ha, toNat_lowMask f 0xf 3 rfl]
  exact insertLoaded_follows m _ even

theorem insertThumb32_follows (hk : decodeThumb32 f s ≠ .other) :
    ∃ o, insertThumb32 m f s pc core 0 = some o ∧
      Follows pc (thumbSuccessor m pc core.cpsr core.r (decodeThumb32 f s)) o := by
  unfold insertThumb32 decodeThumb32 at *
  by_cases hbr : bits f 15 11 = 0x1e ∧ bits s 15 15 = 1
  · rw [if_pos hbr] at hk ⊢
    rw [uvdbThumb32PlanBranchStep_eq f s core.cpsr core.r m even hbr.1 hbr.2 hk]
    rcases planFor_cases pc (fun _ => thumbSuccessor_aligned) with hr | ⟨target, hp, htr⟩
    · rw [hr]
      exact ⟨_, rfl, Or.inl rfl⟩
    · rw [hp]
      exact ⟨_, rfl, Or.inr htr⟩
  rw [if_neg hbr] at hk ⊢
  rw [uvdbThumb32PlanBranchStep_unknown f s core.cpsr even hbr]
  simp only [tableBranch_iff, loadMultiple_iff f s 0xe890 0x3a2 rfl,
    loadMultiple_iff f s 0xe910 0x3a4 rfl]
  by_cases ht : bits f 15 4 = 0xe8d ∧ bits s 15 5 = 0x780
  · rw [if_pos ht, if_pos ht]
    exact ⟨_, rfl, insertTableBranch_follows m f s core even⟩
  rw [if_neg ht] at hk ⊢
  rw [if_neg ht]
  by_cases ha : bits f 15 6 = 0x3a2 ∧ bits f 4 4 = 1 ∧ bits s 15 15 = 1
  · rw [if_pos ha, if_pos ha]
    exact ⟨_, rfl, insertLoadMultipleAfter_follows m f s core even⟩
  rw [if_neg ha] at hk ⊢
  rw [if_neg ha]
  by_cases hb : bits f 15 6 = 0x3a4 ∧ bits f 4 4 = 1 ∧ bits s 15 15 = 1
  · rw [if_pos hb, if_pos hb]
    exact ⟨_, rfl, insertLoadMultipleBefore_follows m f s core even hb.2.2⟩
  rw [if_neg hb] at hk ⊢
  rw [if_neg hb]
  by_cases hl : bits f 15 8 = 0xf8 ∧ bits f 6 4 = 5 ∧ bits s 15 12 = 15
  · rw [if_pos hl]
    rcases uvdbThumb32PlanLoadPcAddress_eq f s core.cpsr core.r m even hl with
      hr | ⟨a, hp, hs⟩
    · rw [hr]
      exact ⟨_, rfl, Or.inl rfl⟩
    · rw [hp, hs]
      exact ⟨_, rfl, insertLoaded_follows m a even⟩
  · exact absurd (if_neg hl) hk

end

end Wide

section Step
variable (memory : Memory) (core : CoreRegisters) (holdPeers : Bool)

theorem thumbSize_eq (first : Halfword) :
    thumbSize first = if 29 ≤ bits first 15 11 then 4 else 2 := by
  have hl (v : Halfword) : first >>> 11 = v ↔ bits first 15 11 = v.toNat := by
    rw [← toNat_inj, toNat_ushiftRight, Nat.shiftRight_eq_div_pow]
    simp only [bits]
    omega
  simp only [thumbSize, hl]
  refine if_congr ?_ rfl rfl
  have hf : bits first 15 11 < 32 := bits_lt first 15 11
  change _ = 29 ∨ _ = 30 ∨ _ = 31 ↔ _
  omega

theorem insertThumbDecoded_wide (first second : Halfword) {pc : Word} (he : pc &&& 1 = 0)
    (hw : 29 ≤ bits first 15 11) (hk : decodeThumb32 first second ≠ .other) :
    Follows pc (thumbSuccessor memory pc core.cpsr core.r (decodeThumb32 first second))
      (insertThumbDecoded memory first second pc core 0) := by
  have hh : bits first 15 12 ≠ 11 := by
    simp only [bits] at hw ⊢
    omega
  obtain ⟨outcome, hi, hf⟩ := insertThumb32_follows memory first second core he hk
  have hb : ¬(first &&& 0xff00 = 0xbf00 ∧ first &&& 0x000f ≠ 0 ∧ first &&& 0x00f0 ≠ 0x00f0) :=
    fun all => hh ((ifThen_iff first).mp all.1).1
  have pop : ¬first &&& 0xff00 = 0xbd00 := fun hp => hh ((pop_iff first).mp hp).1
  have hs : thumbSize first = 4 := (thumbSize_eq first).trans (if_pos hw)
  unfold insertThumbDecoded
  rw [uvdbThumb16PlanDirectStep_wide first core.cpsr core.r he hw]
  simp only [hb, pop, hs, if_false, if_true, hi]
  exact hf

theorem itstate_zero {cpsr : Word} (low : bits cpsr 26 25 = 0) (hh : bits cpsr 15 10 = 0) :
    uvdbThumbItstateFromCpsr cpsr = 0 := by
  have hu : (cpsr >>> 8 &&& 0xfc).toNat = 0 := by
    rw [toNat_and_mask (cpsr >>> 8) 0xfc [(2, 6)] (by decide) (by decide),
      toNat_ushiftRight, Nat.shiftRight_eq_div_pow]
    simp only [bits, fieldsOf] at hh ⊢
    omega
  have hl : (cpsr >>> 25 &&& 3).toNat = 0 := by
    rw [toNat_shiftMask cpsr 3 26 25 rfl, low]
  simp only [uvdbThumbItstateFromCpsr, toNat_or, hu, hl]
  rfl

theorem insertThumbStep_outside (first second : Halfword) (pc : Word)
    (ho : uvdbThumbItstateFromCpsr core.cpsr = 0)
    (hpl : ¬(thumbSize first = 4 ∧ uvdbThumb32InstructionStartsExclusive first second = true)) :
    insertThumbStep memory first second pc core holdPeers = .refused ∨
      insertThumbStep memory first second pc core holdPeers =
        insertThumbDecoded memory first second pc core 0 := by
  have hp : uvdbThumbItStepPlacementValid first second (thumbSize first) 0 = true := by
    rw [thumbSize_eq]
    unfold uvdbThumbItStepPlacementValid
    split <;> rfl
  simp only [insertThumbStep, ho, hpl, if_false, hp, Bool.not_true, Bool.false_eq_true,
    ne_eq, not_true_eq_false, false_and]
  split
  · exact Or.inl rfl
  · exact Or.inr rfl

/-- Outside an IT block, a step over an instruction that branches, exchanges, moves to the program
counter or loads it is refused, or its trap is at the successor and has the successor's size. -/
theorem thumb_step_targets {instruction : ThumbInstruction} (thumb : bits core.cpsr 5 5 = 1)
    (outside : bits core.cpsr 26 25 = 0 ∧ bits core.cpsr 15 10 = 0)
    (even : core.r 15 &&& 1 = 0)
    (fetched : fetchThumb memory (core.r 15) = some instruction)
    (described : instruction ≠ .other) :
    breakpointInsertStep memory core holdPeers = .refused ∨
      ∃ next, thumbSuccessor memory (core.r 15) core.cpsr core.r instruction = some next ∧
        breakpointInsertStep memory core holdPeers = .trap next.address (trapSize next.state) := by
  have hm : core.cpsr &&& 32 ≠ 0 :=
    (and_two_pow_ne_zero_iff core.cpsr (by decide : 5 < 32)).mpr thumb
  have hi := itstate_zero outside.1 outside.2
  have hf : Follows (core.r 15) (thumbSuccessor memory (core.r 15) core.cpsr core.r instruction)
      (breakpointInsertStep memory core holdPeers) := by
    unfold breakpointInsertStep
    simp only [hm, ne_eq, not_false_eq_true, if_true]
    split
    · exact Or.inl rfl
    unfold fetchThumb at fetched
    cases hsh : readHalfword memory (core.r 15) with
    | none => exact Or.inl rfl
    | some fi =>
      rw [hsh] at fetched
      by_cases hw : 29 ≤ bits fi 15 11
      · have hsi : thumbSize fi = 4 := (thumbSize_eq fi).trans (if_pos hw)
        simp only [hsi, if_true]
        simp only [bind_eq_bind, bind_some, hw, if_true] at fetched
        obtain ⟨second, hr, hd⟩ := bind_eq_some_iff.mp fetched
        cases hd
        rw [hr]
        have hp := exclusive_false fi second described
        rcases insertThumbStep_outside memory core holdPeers fi second (core.r 15) hi
          (by simp [hp]) with refused | hd
        · exact Or.inl refused
        · change Follows _ _ (insertThumbStep memory fi second (core.r 15) core holdPeers)
          rw [hd]
          exact insertThumbDecoded_wide memory core fi second even hw described
      have hsi : thumbSize fi = 2 := (thumbSize_eq fi).trans (if_neg hw)
      simp only [hsi]
      simp only [bind_eq_bind, bind_some, hw, if_false] at fetched
      cases fetched
      rcases insertThumbStep_outside memory core holdPeers fi 0 (core.r 15) hi
        (by simp [hsi]) with refused | hd
      · exact Or.inl refused
      · change Follows _ _ (insertThumbStep memory fi 0 (core.r 15) core holdPeers)
        rw [hd]
        exact insertThumbDecoded_narrow memory fi 0 core even described
  rcases hf with refused | trap
  · exact Or.inl refused
  cases hs : thumbSuccessor memory (core.r 15) core.cpsr core.r instruction with
  | none => exact Or.inl (trap.trans (by rw [hs, trapFor]))
  | some next =>
    rw [hs, trapFor] at trap
    by_cases hse : next.address = core.r 15
    · exact Or.inl (trap.trans (if_pos hse))
    · exact Or.inr ⟨next, rfl, trap.trans (if_neg hse)⟩

/-- `pop {r4, pc}` at `0x81000000`, with a return address into ARM code above `r4`. -/
def popMemory : Memory := fun address =>
  match address.toNat with
  | 0x81000000 => some 0x10
  | 0x81000001 => some 0xbd
  | 0x81400004 => some 0x00
  | 0x81400005 => some 0x02
  | 0x81400006 => some 0x00
  | 0x81400007 => some 0x81
  | _ => none

def popRegisters : CoreRegisters :=
  ⟨fun i => if i = 13 then 0x81400000 else if i = 15 then 0x81000000 else 0, 0x30⟩

theorem thumb_step_targets_pop :
    fetchThumb popMemory 0x81000000 = some (.loadMultiple false 13 0x8010) ∧
      breakpointInsertStep popMemory popRegisters true = .trap 0x81000200 4 ∧
      thumbSuccessor popMemory 0x81000000 0x30 popRegisters.r (.loadMultiple false 13 0x8010) =
        some ⟨0x81000200, .arm⟩ := by
  have hf : fetchThumb popMemory 0x81000000 = some (.loadMultiple false 13 0x8010) := by decide
  have trap : breakpointInsertStep popMemory popRegisters true = .trap 0x81000200 4 := by decide
  refine ⟨hf, trap, ?_⟩
  rcases thumb_step_targets popMemory popRegisters true (by decide) (by decide) (by decide) hf
    (by decide) with hr | ⟨next, hs, hsa⟩
  · exact absurd (hr.symm.trans trap) (by decide)
  refine hs.trans (congrArg some ?_)
  obtain ⟨address, st⟩ := next
  have hp := trap.symm.trans hsa
  injection hp with hpl hsi
  cases st with
  | arm => rw [hpl]
  | thumb => exact absurd hsi (show ¬4 = 2 by decide)

end Step

end VitaDebugger.ThumbStep
