import VitaDebugger.StepFields
import VitaDebugger.StepInsertion

/-! The trap a single step inserts, in terms of the successor it waits for. -/

namespace VitaDebugger.StepTraps
open BitField ArmArchitecture StepInsertion StepFields List Nat

def trapSize : InstructionSet → ℕ
  | .arm => 4
  | .thumb => 2

/-- The request for a known successor: an instruction that continues at itself is refused. -/
def trapFor (pc : Word) : Option Successor → StepOutcome
  | none => .refused
  | some next => if next.address = pc then .refused else .trap next.address (trapSize next.state)

/-- Addresses at which an instruction of that state can stand. -/
def Successor.Aligned (next : Successor) : Prop :=
  match next.state with
  | .arm => next.address &&& 3 = 0
  | .thumb => next.address &&& 1 = 0

theorem and_one_iff (address : Word) : address &&& 1 = 0 ↔ address.toNat % 2 = 0 := by
  rw [mask_eq_iff address _ _ [(0, 1)] (by decide) (by decide)]
  simp only [fieldsOf]
  change _ = 0 ↔ _
  omega

variable {address : Word}

theorem and_not_one_of_even (he : address &&& 1 = 0) : address &&& ~~~1 = address := by
  rw [and_one_iff] at he
  rw [← clearLow_one]
  apply BitVec.eq_of_toNat_eq
  rw [toNat_clearLow]
  omega

theorem even_of_aligned (ha : address &&& 3 = 0) : address &&& 1 = 0 := by
  rw [and_three_iff] at ha
  rw [and_one_iff]
  omega

theorem branchWritePC_aligned (s : InstructionSet) (address : Word) :
    Successor.Aligned (branchWritePC s address) := by
  cases s with
  | arm =>
    change clearLow 2 address &&& 3 = 0
    rw [and_three_iff, toNat_clearLow]
    omega
  | thumb =>
    change clearLow 1 address &&& 1 = 0
    rw [and_one_iff, toNat_clearLow]
    omega

theorem bxWritePC_aligned {next : Successor} (hw : bxWritePC address = some next) :
    Successor.Aligned next := by
  unfold bxWritePC at hw
  split at hw
  · cases hw
    exact branchWritePC_aligned .thumb address
  split at hw
  · cases hw
  · cases hw
    exact branchWritePC_aligned .arm address

theorem breakpointInsertInternal_aligned {n : Successor} (ha : Successor.Aligned n) :
    breakpointInsertInternal n.address (trapSize n.state) =
      .trap n.address (trapSize n.state) := by
  obtain ⟨address, s⟩ := n
  cases s with
  | arm =>
    have hw : address &&& 3 = 0 := ha
    simp only [breakpointInsertInternal, and_not_one_of_even (even_of_aligned hw), trapSize, hw]
    rfl
  | thumb =>
    have he : address &&& 1 = 0 := ha
    simp only [breakpointInsertInternal, and_not_one_of_even he, trapSize]
    rfl

/-- A plan that follows the architecture is refused or asks for the trap at the successor. -/
theorem planFor_cases (pc : Word) {n : Option Successor}
    (ha : ∀ s, n = some s → Successor.Aligned s) :
    planFor pc n = .refused ∨
      ∃ t, planFor pc n = .planned t ∧ insertPlanned t = trapFor pc n := by
  cases n with
  | none => exact Or.inl rfl
  | some n =>
    by_cases hs : n.address = pc
    · exact Or.inl (if_pos hs)
    have hsi : (if n.state = .thumb then 2 else 4) = trapSize n.state := by
      cases n.state <;> rfl
    refine Or.inr ⟨_, if_neg hs, ?_⟩
    rw [insertPlanned, hsi, breakpointInsertInternal_aligned (ha n rfl), trapFor, if_neg hs]

variable {pc : Word}

theorem breakpointInsertStepTargetSized_thumb (address : Word) (he : pc &&& 1 = 0) :
    breakpointInsertStepTargetSized address 2 pc =
      trapFor pc (some (branchWritePC .thumb address)) := by
  have hr := breakpointInsertInternal_aligned (branchWritePC_aligned .thumb address)
  simp only [branchWritePC, clearLow_one, trapSize] at hr
  simp only [breakpointInsertStepTargetSized, and_not_one_of_even he, trapFor, branchWritePC,
    clearLow_one, trapSize, ← hr]
  rfl

theorem breakpointInsertStepTargetSized_arm (he : pc &&& 1 = 0) (ha : address &&& 3 = 0) :
    breakpointInsertStepTargetSized address 4 pc =
      trapFor pc (some (branchWritePC .arm address)) := by
  have hr := breakpointInsertInternal_aligned (branchWritePC_aligned .arm address)
  simp only [branchWritePC, clearLow_two, trapSize] at hr
  simp only [breakpointInsertStepTargetSized, and_not_one_of_even he, trapFor, branchWritePC,
    clearLow_two, trapSize, ← hr, ha]
  rfl

theorem breakpointInsertStepTarget_eq (w : Word) (he : pc &&& 1 = 0) :
    breakpointInsertStepTarget w pc = trapFor pc (bxWritePC w) := by
  rw [breakpointInsertStepTarget, bxWritePC_masks]
  by_cases odd : w &&& 1 ≠ 0
  · rw [if_pos odd, if_pos odd, breakpointInsertStepTargetSized_thumb w he]
  rw [if_neg odd, if_neg odd]
  by_cases hu : w &&& 3 ≠ 0
  · rw [if_pos hu, breakpointInsertStepTargetSized, if_neg (by decide), if_pos ⟨rfl, hu⟩, trapFor]
  · rw [if_neg hu, breakpointInsertStepTargetSized_arm he (not_not.mp hu)]

theorem insertLoaded_eq (m : Memory) (address : Word) (he : pc &&& 1 = 0) :
    insertLoaded m address pc = .refused ∨ ∃ w, readWord m address = some w ∧
        insertLoaded m address pc = trapFor pc (bxWritePC w) := by
  unfold insertLoaded
  split
  · exact Or.inl rfl
  cases hl : readWord m address with
  | none => exact Or.inl rfl
  | some w => exact Or.inr ⟨w, rfl, breakpointInsertStepTarget_eq w he⟩

/-- A multiple load reads its words in the order of the registers, one below the next. -/
theorem transferAddress_eq (s : Word) (list : BitVec 16) (n : ℕ) :
    transferAddress s list n =
      s + BitVec.ofNat 32 (4 * (List.range n).countP fun i => list.getLsbD i) := by
  induction n with
  | zero => exact (BitVec.add_zero s).symm
  | succ n ih =>
    rw [transferAddress, ih, range_succ, countP_append, countP_singleton,
      mul_add, BitVec.ofNat_add, BitVec.add_assoc]
    cases list.getLsbD n <;> rfl

theorem popcount_low {w : ℕ} (word m : BitVec w) {n : ℕ} (hf : n ≤ w)
    (hs : m.toNat = 2 ^ n - 1) :
    popcount (word &&& m) = (List.range n).countP fun i => word.getLsbD i := by
  have bit (i : ℕ) : (word &&& m).getLsbD i = (word.getLsbD i && decide (i < n)) := by
    rw [BitVec.getLsbD_and, BitVec.getLsbD, BitVec.getLsbD, hs, testBit_two_pow_sub_one]
  have ha : ((List.range (w - n)).map (n + ·)).countP (fun i => (word &&& m).getLsbD i) = 0 := by
    rw [countP_eq_zero]
    intro i hi
    obtain ⟨j, _, rfl⟩ := mem_map.mp hi
    simp [bit]
  have hb : (List.range n).countP (fun i => (word &&& m).getLsbD i) =
      (List.range n).countP fun i => word.getLsbD i := by
    apply countP_congr
    intro i hi
    simp [bit, mem_range.mp hi]
  have hw : List.range w = List.range n ++ (List.range (w - n)).map (n + ·) := by
    rw [← List.range_add, Nat.add_sub_cancel' hf]
  rw [popcount, hw, List.countP_append, ha, hb, Nat.add_zero]

end VitaDebugger.StepTraps
