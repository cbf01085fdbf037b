import VitaDebugger.StepClassifiers

/-! An instruction that writes the program counter never gets the trap of a sequential step: its
trap is at a target that was computed for it, or the step is refused. -/

namespace VitaDebugger.StepEscape
open BitField ArmArchitecture ThumbArchitecture StepPlanner StepInsertion StepFields ThumbStep
open StepClassifiers

/-- The outcomes of an ARM step that come before its last branch, the sequential trap. -/
inductive ArmComputed (memory : Memory) (x pc : Word) (core : CoreRegisters) : StepOutcome → Prop
  | refused : ArmComputed memory x pc core .refused
  | direct {target : StepTarget}
      (planned : uvdbArmPlanDirectStep x pc core.cpsr core.r = .planned target) :
      ArmComputed memory x pc core (insertPlanned target)
  | multiple (form : x &&& 0x0e108000 = 0x08108000) :
      ArmComputed memory x pc core (insertLoaded memory (armSavedPcAddress x core) pc)
  | loaded {address : Word}
      (planned : uvdbArmPlanLoadPcAddress x pc core.cpsr core.r = .planned address) :
      ArmComputed memory x pc core (insertLoaded memory address pc)

section Arm
variable {memory : Memory} {x pc : Word} {core : CoreRegisters}

theorem passed_of_executes (he : armExecutes core.cpsr x = true) (hc : bits x 31 28 ≠ 15) :
    uvdbArmConditionPassed (x >>> 28).toNat core.cpsr = true := by
  have hf : bits x 31 28 < 16 := bits_lt x 31 28
  rw [toNat_condition, uvdbArmConditionPassed_eq core.cpsr (by omega)]
  simpa [armExecutes, hc] using he

theorem insertArmLoadMultiple_computed (hf : x &&& 0x0e108000 = 0x08108000)
    (he : armExecutes core.cpsr x = true) (hc : bits x 31 28 ≠ 15) :
    ArmComputed memory x pc core (insertArmLoadMultiple memory x pc core) := by
  simp only [insertArmLoadMultiple, passed_of_executes he hc, Bool.not_true,
    Bool.false_eq_true, ↓reduceIte]
  split
  · exact .refused
  split
  · exact .refused
  · exact .multiple hf

theorem conditional_of_multiple (hw : ArmWritesPC x) (hf : x &&& 0x0e108000 = 0x08108000) :
    bits x 31 28 ≠ 15 := by
  have hfi : bits x 27 25 = 4 ∧ bits x 15 15 = 1 := by
    rw [mask_eq_iff x _ _ [(25, 3), (20, 1), (15, 1)] (by decide) (by decide)] at hf
    simp only [fieldsOf, bits] at hf ⊢
    change _ = 0x08108000 at hf
    omega
  intro hs
  rw [ArmWritesPC, if_pos hs] at hw
  simp only [bits] at hw hfi
  omega

theorem insertArmStep_computed (hw : ArmWritesPC x)
    (he : armExecutes core.cpsr x = true) (holdPeers : Bool) :
    ArmComputed memory x pc core (insertArmStep memory x pc core holdPeers) := by
  simp only [insertArmStep, exclusive_false hw, Bool.false_eq_true, ↓reduceIte]
  split
  · exact .refused
  cases planned : uvdbArmPlanDirectStep x pc core.cpsr core.r with
  | refused => exact .refused
  | planned target => exact .direct planned
  | unknown =>
    dsimp only
    split
    · next form =>
      exact insertArmLoadMultiple_computed form he (conditional_of_multiple hw form)
    cases loaded : uvdbArmPlanLoadPcAddress x pc core.cpsr core.r with
    | refused => exact .refused
    | planned address => exact .loaded loaded
    | unknown =>
      have executed : ¬((x >>> 28).toNat ≠ 0xf ∧
          (!uvdbArmConditionPassed (x >>> 28).toNat core.cpsr) = true) := by
        rintro ⟨conditional, fails⟩
        rw [toNat_condition] at conditional
        rw [passed_of_executes he conditional] at fails
        cases fails
      rw [mayWritePc_iff.mpr (.inl hw), if_pos rfl, if_neg executed]
      exact .refused

end Arm

/-- The outcomes of a Thumb step that come before the trap behind the instruction. -/
inductive ThumbComputed (memory : Memory) (first second : Halfword) (pc : Word)
    (core : CoreRegisters) : StepOutcome → Prop
  | refused : ThumbComputed memory first second pc core .refused
  | direct {target : StepTarget}
      (planned : uvdbThumb16PlanDirectStep first pc core.cpsr core.r = .planned target) :
      ThumbComputed memory first second pc core (insertPlanned target)
  | popped (form : first &&& 0xff00 = 0xbd00) :
      ThumbComputed memory first second pc core (insertPop memory first pc core)
  | branch {target : StepTarget}
      (planned : uvdbThumb32PlanBranchStep first second pc core.cpsr = .planned target) :
      ThumbComputed memory first second pc core (insertPlanned target)
  | table (form : first &&& 0xfff0 = 0xe8d0 ∧ second &&& 0xffe0 = 0xf000) :
      ThumbComputed memory first second pc core (insertTableBranch memory first second pc core)
  | multipleAfter (form : first &&& 0xffd0 = 0xe890 ∧ second &&& 0x8000 ≠ 0) :
      ThumbComputed memory first second pc core
        (insertLoadMultipleAfter memory first second pc core)
  | multipleBefore (form : first &&& 0xffd0 = 0xe910 ∧ second &&& 0x8000 ≠ 0) :
      ThumbComputed memory first second pc core
        (insertLoadMultipleBefore memory first second pc core)
  | loaded {address : Word}
      (planned : uvdbThumb32PlanLoadPcAddress first second pc core.r = .planned address) :
      ThumbComputed memory first second pc core (insertLoaded memory address pc)

section Thumb
variable {m : Memory} {first second : Halfword} {pc : Word} {core : CoreRegisters}

theorem itstateFromCpsr_eq (c : Word) : uvdbThumbItstateFromCpsr c = itState c := by
  have hu : (c >>> 8 &&& 0xfc).toNat = bits c 15 10 * 2 ^ 2 := by
    rw [toNat_and_mask (c >>> 8) 0xfc [(2, 6)] (by decide) (by decide),
      BitVec.toNat_ushiftRight, Nat.shiftRight_eq_div_pow]
    simp only [bits, fieldsOf]
    omega
  have hl : (c >>> 25 &&& 3).toNat = bits c 26 25 := toNat_shiftMask c 3 26 25 rfl
  have hs : bits c 26 25 < 2 ^ 2 := bits_lt c 26 25
  simp only [uvdbThumbItstateFromCpsr, BitVec.toNat_or, hu, hl, itState]
  rw [Nat.mul_comm, ← Nat.two_pow_add_eq_or_of_lt hs, Nat.mul_comm]

/-- The instruction at hand writes the program counter. -/
def ThumbWritesPC (first second : Halfword) : Prop :=
  if 29 ≤ bits first 15 11 then Thumb32WritesPC first second else Thumb16WritesPC first

instance (first second : Halfword) : Decidable (ThumbWritesPC first second) :=
  inferInstanceAs (Decidable (ite _ _ _))

theorem ThumbComputed.guarded {o : StepOutcome} (i : ℕ)
    (hc : ThumbComputed m first second pc core o) :
    ThumbComputed m first second pc core
      (if beforeLastSlot i then .refused else o) := by
  split
  · exact .refused
  · exact hc

variable (m pc core) in
theorem insertThumb32_computed (hw : Thumb32WritesPC first second) (i : ℕ) :
    ∃ o, insertThumb32 m first second pc core i = some o ∧
      ThumbComputed m first second pc core o := by
  unfold insertThumb32
  cases hb : uvdbThumb32PlanBranchStep first second pc core.cpsr with
  | refused => exact ⟨_, rfl, .refused⟩
  | planned target => exact ⟨_, rfl, .guarded i (.branch hb)⟩
  | unknown =>
    dsimp only
    split
    · next hf => exact ⟨_, rfl, .guarded i (.table hf)⟩
    split
    · next hf => exact ⟨_, rfl, .guarded i (.multipleAfter hf)⟩
    split
    · next hf => exact ⟨_, rfl, .guarded i (.multipleBefore hf)⟩
    cases hl : uvdbThumb32PlanLoadPcAddress first second pc core.r with
    | refused => exact ⟨_, rfl, .refused⟩
    | planned address => exact ⟨_, rfl, .guarded i (.loaded hl)⟩
    | unknown => exact ⟨_, if_pos (mayWritePc32_of_writes hw), .refused⟩

theorem not_ifThen (hw : ThumbWritesPC first second) : ¬first &&& 0xff00 = 0xbf00 := by
  rw [ifThen_iff]
  rintro ⟨hf, hc⟩
  have hn : ¬29 ≤ bits first 15 11 := by
    simp only [bits] at hf ⊢
    omega
  rw [ThumbWritesPC, if_neg hn, Thumb16WritesPC] at hw
  simp only [bits] at hw hf hc
  omega

theorem insertThumbDecoded_computed (hw : ThumbWritesPC first second) (i : ℕ) :
    ThumbComputed m first second pc core
      (insertThumbDecoded m first second pc core i) := by
  unfold insertThumbDecoded
  cases hd : uvdbThumb16PlanDirectStep first pc core.cpsr core.r with
  | refused => exact .refused
  | planned target => exact .guarded i (.direct hd)
  | unknown =>
    dsimp only
    rw [if_neg (fun hb => not_ifThen hw hb.1), thumbSize_eq]
    split
    · next hf => exact .guarded i (.popped hf)
    by_cases hwi : 29 ≤ bits first 15 11
    · rw [ThumbWritesPC, if_pos hwi] at hw
      obtain ⟨outcome, hi, hc⟩ := insertThumb32_computed m pc core hw i
      simp only [hwi, ↓reduceIte, hi]
      exact hc
    · rw [ThumbWritesPC, if_neg hwi] at hw
      rw [if_neg (by simp [hwi]), if_pos (mayWritePc16_iff.mpr hw)]
      exact .refused

theorem wideExclusive_false (hw : Thumb32WritesPC first second) :
    uvdbThumb32InstructionStartsExclusive first second = false := by
  have hs : second &&& 0x00c0 = 0x0040 ↔ bits second 7 6 = 1 :=
    and_eq_iff second [(7, 6, 1)] (by decide)
  rw [uvdbThumb32InstructionStartsExclusive, decide_eq_false_iff_not,
    lead_iff first 0xe850 0xe85 rfl, lead_iff first 0xe8d0 0xe8d rfl, hs]
  intro he
  rw [Thumb32WritesPC] at hw
  simp only [bits] at hw he
  omega

theorem insertThumbStep_computed (hw : ThumbWritesPC first second)
    (he : thumbExecutes core.cpsr = true) (holdPeers : Bool) :
    ThumbComputed m first second pc core
      (insertThumbStep m first second pc core holdPeers) := by
  have hp : ¬(thumbSize first = 4 ∧ uvdbThumb32InstructionStartsExclusive first second = true) := by
    rintro ⟨hs, hex⟩
    have hwi : 29 ≤ bits first 15 11 := by
      by_contra hn
      rw [thumbSize_eq, if_neg hn] at hs
      cases hs
    rw [ThumbWritesPC, if_pos hwi] at hw
    rw [wideExclusive_false hw] at hex
    cases hex
  have hee : ¬(uvdbThumbItstateFromCpsr core.cpsr ≠ 0 ∧
      (!uvdbArmConditionPassed (uvdbThumbItstateFromCpsr core.cpsr >>> 4) core.cpsr) = true) := by
    rw [itstateFromCpsr_eq, Nat.shiftRight_eq_div_pow]
    rintro ⟨hi, hf⟩
    simp only [thumbExecutes, hi, decide_false, Bool.false_or, Bool.and_eq_true,
      decide_eq_true_eq] at he
    rw [uvdbArmConditionPassed_eq core.cpsr he.1, he.2] at hf
    cases hf
  simp only [insertThumbStep, hp, hee, ↓reduceIte]
  split
  · exact .refused
  split
  · exact .refused
  · exact insertThumbDecoded_computed hw _

end Thumb

section Step
variable {memory : Memory} {core : CoreRegisters} {holdPeers : Bool}

theorem arm_computed {x : Word} (arm : bits core.cpsr 5 5 = 0)
    (hf : readWord memory (core.r 15) = some x) (hw : ArmWritesPC x)
    (he : armExecutes core.cpsr x = true) :
    ArmComputed memory x (core.r 15) core (breakpointInsertStep memory core holdPeers) := by
  have hm : ¬core.cpsr &&& 32 ≠ 0 := by
    rw [show (32 : Word) = BitVec.ofNat 32 (2 ^ 5) from rfl,
      and_two_pow_ne_zero_iff core.cpsr (by decide : 5 < 32)]
    omega
  simp only [breakpointInsertStep, hm, ↓reduceIte, hf]
  split
  · exact .refused
  · exact insertArmStep_computed hw he holdPeers

variable (memory core holdPeers) in
/-- Under Thumb state a step decodes the fetched halfwords; the second of a short instruction is not
read. -/
theorem breakpointInsertStep_thumb {first second : Halfword} (ht : bits core.cpsr 5 5 = 1)
    (hf : readHalfword memory (core.r 15) = some first)
    (hr : if 29 ≤ bits first 15 11 then readHalfword memory (core.r 15 + 2) = some second
      else second = 0) :
    breakpointInsertStep memory core holdPeers =
      if uvdbStepCpsrStateSupported core.cpsr then
        insertThumbStep memory first second (core.r 15) core holdPeers
      else .refused := by
  have hm : core.cpsr &&& 32 ≠ 0 := (and_two_pow_ne_zero_iff core.cpsr (by decide : 5 < 32)).mpr ht
  have hh : (if thumbSize first = 4 then readHalfword memory (core.r 15 + 2)
      else some 0) = some second := by
    rw [thumbSize_eq]
    by_cases hw : 29 ≤ bits first 15 11
    · rw [if_pos hw] at hr ⊢
      rw [if_pos rfl, hr]
    · rw [if_neg hw] at hr ⊢
      rw [if_neg (by decide), hr]
  simp only [breakpointInsertStep, hm, ne_eq, not_false_eq_true, ↓reduceIte, hf, hh]
  cases uvdbStepCpsrStateSupported core.cpsr <;> rfl

theorem thumb_computed {first second : Halfword} (ht : bits core.cpsr 5 5 = 1)
    (hf : readHalfword memory (core.r 15) = some first)
    (hre : if 29 ≤ bits first 15 11 then readHalfword memory (core.r 15 + 2) = some second
      else second = 0)
    (hw : ThumbWritesPC first second) (he : thumbExecutes core.cpsr = true) :
    ThumbComputed memory first second (core.r 15) core
      (breakpointInsertStep memory core holdPeers) := by
  rw [breakpointInsertStep_thumb memory core holdPeers ht hf hre]
  split
  · exact insertThumbStep_computed hw he holdPeers
  · exact .refused

/-- An executed instruction that can write the program counter never reaches the sequential trap,
and every instruction a planner takes is known to its classifier. -/
theorem pc_writers_never_escape :
    (∀ memory core holdPeers x, bits core.cpsr 5 5 = 0 → readWord memory (core.r 15) = some x →
      ArmWritesPC x → armExecutes core.cpsr x = true →
      ArmComputed memory x (core.r 15) core (breakpointInsertStep memory core holdPeers)) ∧
    (∀ memory core holdPeers first second, bits core.cpsr 5 5 = 1 →
      readHalfword memory (core.r 15) = some first →
      (if 29 ≤ bits first 15 11 then readHalfword memory (core.r 15 + 2) = some second
        else second = 0) →
      ThumbWritesPC first second → thumbExecutes core.cpsr = true →
      ThumbComputed memory first second (core.r 15) core
        (breakpointInsertStep memory core holdPeers)) ∧
    (∀ x pc cpsr registers target, uvdbArmPlanDirectStep x pc cpsr registers = .planned target →
      uvdbArmInstructionMayWritePc x = true) ∧
    (∀ x pc cpsr registers address,
      uvdbArmPlanLoadPcAddress x pc cpsr registers = .planned address →
      uvdbArmInstructionMayWritePc x = true) ∧
    (∀ first pc cpsr registers target,
      uvdbThumb16PlanDirectStep first pc cpsr registers = .planned target →
      uvdbThumb16InstructionMayWritePc first = true) ∧
    (∀ first second pc cpsr target,
      uvdbThumb32PlanBranchStep first second pc cpsr = .planned target →
      uvdbThumb32InstructionMayWritePc first second = true) ∧
    ∀ first second pc registers address,
      uvdbThumb32PlanLoadPcAddress first second pc registers = .planned address →
      uvdbThumb32InstructionMayWritePc first second = true :=
  ⟨fun _ _ _ _ => arm_computed, fun _ _ _ _ _ => thumb_computed,
    fun _ _ _ _ _ => uvdbArmPlanDirectStep_classified,
    fun _ _ _ _ _ => uvdbArmPlanLoadPcAddress_classified,
    fun _ _ _ _ _ => uvdbThumb16PlanDirectStep_classified,
    fun _ _ _ _ _ => uvdbThumb32PlanBranchStep_classified,
    fun _ _ _ _ _ => uvdbThumb32PlanLoadPcAddress_classified⟩

/-- `movs pc, lr` at `0x81000000`. -/
def exceptionReturnMemory : Memory := fun address =>
  match address.toNat with
  | 0x81000000 => some 0x0e
  | 0x81000001 => some 0xf0
  | 0x81000002 => some 0xb0
  | 0x81000003 => some 0xe1
  | _ => none

theorem pc_writers_never_escape_movs : ArmWritesPC 0xe1b0f00e ∧ armExecutes 0x10 0xe1b0f00e = true ∧
      ArmComputed exceptionReturnMemory 0xe1b0f00e 0x81000000 ⟨fun _ => 0x81000000, 0x10⟩
        (breakpointInsertStep exceptionReturnMemory ⟨fun _ => 0x81000000, 0x10⟩ true) :=
  ⟨by decide, by decide, pc_writers_never_escape.1 exceptionReturnMemory
    ⟨fun _ => 0x81000000, 0x10⟩ true 0xe1b0f00e (by decide) (by decide) (by decide) (by decide)⟩

end Step
end VitaDebugger.StepEscape
