import VitaDebugger.ArmArchitecture

/-! The step planners of `uvdb_thread_control.c`: from the stopped instruction and the
saved registers to the one address it can continue at. -/

namespace VitaDebugger.StepPlanner
open ArmArchitecture

/-- What a planner returns: `-1`, `0`, or `1` with its result. -/
inductive Plan (α : Type) where
  | refused
  | unknown
  | planned (value : α)
  deriving DecidableEq

structure StepTarget where
  address : Word
  breakpointSize : ℕ
  deriving DecidableEq

def uvdbArmConditionPassed (condition : ℕ) (cpsr : Word) : Bool :=
  if condition > 0xf ∨ condition = 0xf then false
  else
    let n := cpsr >>> 31 &&& 1
    let z := cpsr >>> 30 &&& 1
    let c := cpsr >>> 29 &&& 1
    let v := cpsr >>> 28 &&& 1
    let passed := match condition >>> 1 with
      | 0 => z != 0
      | 1 => c != 0
      | 2 => n != 0
      | 3 => v != 0
      | 4 => c != 0 && z == 0
      | 5 => n == v
      | 6 => z == 0 && n == v
      | _ => condition == 0xe
    if condition &&& 1 ≠ 0 then !passed else passed

def setArmStepTarget (address : Word) (thumb : Bool) (currentPc : Word) : Plan StepTarget :=
  if !thumb ∧ address &&& 3 ≠ 0 then .refused
  else
    let target := address &&& if thumb then ~~~1 else ~~~3
    if target = currentPc then .refused else .planned ⟨target, if thumb then 2 else 4⟩

def signExtendU32 (value : Word) (width : ℕ) : Word :=
  let sign := (1 : Word) <<< (width - 1)
  (value ^^^ sign) - sign

def rotateRightU32 (value : Word) (amount : ℕ) : Word :=
  let amount := amount &&& 31
  if amount ≠ 0 then value >>> amount ||| value <<< (32 - amount) else value

def arithmeticShiftRightU32 (value : Word) (amount : ℕ) : Word :=
  if amount = 0 ∨ 32 ≤ amount then
    if value &&& 0x80000000 ≠ 0 then 0xffffffff else 0
  else if value &&& 0x80000000 ≠ 0 then value >>> amount ||| (0xffffffff : Word) <<< (32 - amount)
  else value >>> amount

section Arm
variable (instruction pc cpsr : Word) (registers : Registers)

def armRegisterValue (number : ℕ) : Word :=
  if number = 15 then pc + 8 else registers (Fin.ofNat 16 number)

def decodeArmImmediateShiftRegister : Option Word :=
  if instruction &&& 0x10 ≠ 0 then none
  else
    let rm := (instruction &&& 0xf).toNat
    let shiftType := (instruction >>> 5 &&& 3).toNat
    let value := armRegisterValue pc registers rm
    let amount := (instruction >>> 7 &&& 0x1f).toNat
    some (match shiftType with
      | 0 => if amount < 32 then value <<< amount else 0
      | 1 => if amount = 0 ∨ 32 ≤ amount then 0 else value >>> amount
      | 2 => arithmeticShiftRightU32 value amount
      | _ =>
        if amount = 0 then (cpsr >>> 29 &&& 1) <<< 31 ||| value >>> 1
        else rotateRightU32 value amount)

def decodeArmOperand2 : Option Word :=
  if instruction &&& 0x02000000 ≠ 0 then
    some (rotateRightU32 (instruction &&& 0xff) ((instruction >>> 8 &&& 0xf).toNat * 2))
  else decodeArmImmediateShiftRegister instruction pc cpsr registers

def dataProcessingResult (opcode : ℕ) (rn operand2 carry : Word) : Option Word :=
  match opcode with
  | 0 => some (rn &&& operand2)
  | 1 => some (rn ^^^ operand2)
  | 2 => some (rn - operand2)
  | 3 => some (operand2 - rn)
  | 4 => some (rn + operand2)
  | 5 => some (rn + operand2 + carry)
  | 6 => some (rn - operand2 - (1 - carry))
  | 7 => some (operand2 - rn - (1 - carry))
  | 12 => some (rn ||| operand2)
  | 13 => some operand2
  | 14 => some (rn &&& ~~~operand2)
  | 15 => some (~~~operand2)
  | _ => none

/-- An executed operation that writes the program counter. -/
def planArmDataProcessingResult : Plan StepTarget :=
  let opcode := (instruction >>> 21 &&& 0xf).toNat
  if 8 ≤ opcode ∧ opcode ≤ 11 ∨ instruction &&& 0x00100000 ≠ 0 then .unknown
  else match decodeArmOperand2 instruction pc cpsr registers with
    | none => .refused
    | some operand2 =>
      let rn := armRegisterValue pc registers (instruction >>> 16 &&& 0xf).toNat
      match dataProcessingResult opcode rn operand2 (cpsr >>> 29 &&& 1) with
      | none => .unknown
      | some result => setArmStepTarget result (result &&& 1 != 0) pc

def planArmDataProcessingPcStep : Plan StepTarget :=
  let condition := (instruction >>> 28).toNat
  let opcodeClass := instruction >>> 25 &&& 7
  if condition = 0xf ∨ instruction &&& 0x0000f000 ≠ 0x0000f000 ∨
      opcodeClass ≠ 1 ∧ (opcodeClass ≠ 0 ∨
        instruction &&& 0x10 ≠ 0 ∧ instruction &&& 0x80 ≠ 0) then .unknown
  else if !uvdbArmConditionPassed condition cpsr then setArmStepTarget (pc + 4) false pc
  else planArmDataProcessingResult instruction pc cpsr registers

/-- A conditional instruction: where it goes when it is executed, and past it otherwise. -/
def conditionally (taken : Plan StepTarget) : Plan StepTarget :=
  let condition := (instruction >>> 28).toNat
  if condition = 0xf then .unknown
  else if !uvdbArmConditionPassed condition cpsr then setArmStepTarget (pc + 4) false pc
  else taken

def uvdbArmPlanDirectStep : Plan StepTarget :=
  let address := armRegisterValue pc registers (instruction &&& 0xf).toNat
  if pc &&& 3 ≠ 0 then .refused
  else if instruction &&& 0xfe000000 = 0xfa000000 then
    let encoded := (instruction &&& 0x00ffffff) <<< 2 ||| (instruction >>> 23 &&& 2)
    setArmStepTarget (pc + 8 + signExtendU32 encoded 26) true pc
  else if instruction &&& 0x0e000000 = 0x0a000000 then
    let encoded := (instruction &&& 0x00ffffff) <<< 2
    conditionally instruction pc cpsr
      (setArmStepTarget (pc + 8 + signExtendU32 encoded 26) false pc)
  else if instruction &&& 0x0ffffff0 = 0x01a0f000 then
    conditionally instruction pc cpsr (setArmStepTarget address (address &&& 1 != 0) pc)
  else if instruction &&& 0x0ffffff0 = 0x012fff10 ∨ instruction &&& 0x0ffffff0 = 0x012fff30 then
    conditionally instruction pc cpsr
      (if instruction &&& 0x0ffffff0 = 0x012fff30 ∧ (instruction &&& 0xf).toNat = 15 then .refused
      else setArmStepTarget address (address &&& 1 != 0) pc)
  else planArmDataProcessingPcStep instruction pc cpsr registers

def uvdbArmPlanLoadPcAddress : Plan Word :=
  let condition := (instruction >>> 28).toNat
  let rn := (instruction >>> 16 &&& 0xf).toNat
  let preIndex := instruction &&& 0x01000000 != 0
  let add := instruction &&& 0x00800000 != 0
  let writeback := instruction &&& 0x00200000 != 0
  let registerOffset := instruction &&& 0x02000000 != 0
  if pc &&& 3 ≠ 0 then .refused
  else if condition = 0xf ∨ instruction &&& 0x0c10f000 ≠ 0x0410f000 then .unknown
  else if !uvdbArmConditionPassed condition cpsr then .unknown
  else if instruction &&& 0x00400000 ≠ 0 then .refused
  else if rn = 15 ∧ (registerOffset ∨ !preIndex ∨ writeback) ∨ !preIndex ∧ writeback then .refused
  else
    let base := armRegisterValue pc registers rn
    let offset :=
      if registerOffset then
        if (instruction &&& 0xf).toNat = 15 then none
        else decodeArmImmediateShiftRegister instruction pc cpsr registers
      else some (instruction &&& 0x0fff)
    match offset with
    | none => .refused
    | some offset =>
      .planned (if preIndex then if add then base + offset else base - offset else base)

def uvdbArmInstructionMayWritePc : Bool :=
  let condition := instruction >>> 28
  let opcodeClass := instruction >>> 25 &&& 7
  decide (instruction &&& 0xfe50ffff = 0xf8100a00 ∨
    condition ≠ 0xf ∧ instruction &&& 0x0fffffff = 0x0160006e ∨
    instruction &&& 0xfe000000 = 0xfa000000 ∨
    condition ≠ 0xf ∧ instruction &&& 0x0e000000 = 0x0a000000 ∨
    condition ≠ 0xf ∧ (instruction &&& 0x0ffffff0 = 0x012fff10 ∨
      instruction &&& 0x0ffffff0 = 0x012fff20 ∨ instruction &&& 0x0ffffff0 = 0x012fff30) ∨
    condition ≠ 0xf ∧ instruction &&& 0x0e100000 = 0x08100000 ∧ instruction &&& 0x00008000 ≠ 0 ∨
    condition ≠ 0xf ∧ instruction &&& 0x0c10f000 = 0x0410f000 ∨
    condition ≠ 0xf ∧ instruction &&& 0x0000f000 = 0x0000f000 ∧ (opcodeClass = 1 ∨ opcodeClass = 0 ∧
        (¬instruction &&& 0x10 ≠ 0 ∨ ¬instruction &&& 0x80 ≠ 0)))

def uvdbArmInstructionStartsExclusive : Bool :=
  decide (instruction >>> 28 ≠ 0xf ∧ instruction &&& 0x0f9000f0 = 0x01900090)

end Arm

abbrev Halfword := BitVec 16

section Thumb
variable (instruction : Halfword) (pc cpsr : Word) (registers : Registers)

def uvdbThumb16PlanDirectStep : Plan StepTarget :=
  let rm := (instruction >>> 3 &&& 0xf).toNat
  let register := if rm = 15 then pc + 4 else registers (Fin.ofNat 16 rm)
  if pc &&& 1 ≠ 0 then .refused
  else if instruction &&& 0xf000 = 0xd000 ∧ instruction &&& 0x0f00 < 0x0e00 then
    let condition := (instruction >>> 8 &&& 0xf).toNat
    let encoded := (instruction &&& 0x00ff).setWidth 32 <<< 1
    setArmStepTarget (if uvdbArmConditionPassed condition cpsr
      then pc + 4 + signExtendU32 encoded 9 else pc + 2) true pc
  else if instruction &&& 0xf800 = 0xe000 then
    let encoded := (instruction &&& 0x07ff).setWidth 32 <<< 1
    setArmStepTarget (pc + 4 + signExtendU32 encoded 12) true pc
  else if instruction &&& 0xf500 = 0xb100 then
    let rn := registers (Fin.ofNat 16 (instruction &&& 7).toNat)
    let take := if instruction &&& 0x0800 ≠ 0 then rn != 0 else rn == 0
    let high : Word := ((instruction &&& 0x0200) >>> 3).setWidth 32
    let low : Word := ((instruction &&& 0x00f8) >>> 2).setWidth 32
    setArmStepTarget (if take then pc + 4 + high + low else pc + 2) true pc
  else if instruction &&& 0xff07 = 0x4700 then
    if instruction &&& 0x0080 ≠ 0 ∧ rm = 15 then .refused
    else setArmStepTarget register (register &&& 1 != 0) pc
  else if instruction &&& 0xff00 = 0x4700 then .refused
  else if instruction &&& 0xff87 = 0x4687 then setArmStepTarget register true pc
  else if instruction &&& 0xff87 = 0x4487 then
    if rm = 15 then .refused
    else setArmStepTarget ((pc + 4 &&& ~~~3) + registers (Fin.ofNat 16 rm)) true pc
  else .unknown

def uvdbThumb16InstructionMayWritePc : Bool :=
  if instruction &&& 0xf000 = 0xd000 ∧ instruction &&& 0x0f00 < 0x0e00 ∨
      instruction &&& 0xf800 = 0xe000 ∨ instruction &&& 0xff07 = 0x4700 ∨
      instruction &&& 0xff00 = 0xbd00 ∨ instruction &&& 0xf500 = 0xb100 then true
  else if instruction &&& 0xff00 = 0x4400 ∨ instruction &&& 0xff00 = 0x4600 then
    let low : Halfword := instruction &&& 7
    let high : Halfword := instruction >>> 4 &&& 8
    low ||| high == 15
  else false

end Thumb

section Thumb32
variable (first second : Halfword) (pc cpsr : Word) (registers : Registers)

/-- The complement of an exclusive or, as one bit. -/
def notXor (j sign : Word) : Word := if j ^^^ sign = 0 then 1 else 0

def uvdbThumb32PlanBranchStep : Plan StepTarget :=
  if pc &&& 1 ≠ 0 then .refused
  else if first &&& 0xf800 ≠ 0xf000 ∨ second &&& 0x8000 = 0 then .unknown
  else if second &&& 0x1000 ≠ 0 ∨ second &&& 0xd001 = 0xc000 then
    let sign := first.setWidth 32 >>> 10 &&& 1
    let i1 := notXor (second.setWidth 32 >>> 13 &&& 1) sign
    let i2 := notXor (second.setWidth 32 >>> 11 &&& 1) sign
    let encoded := sign <<< 24 ||| i1 <<< 23 ||| i2 <<< 22 |||
      (first &&& 0x03ff).setWidth 32 <<< 12 ||| (second &&& 0x07ff).setWidth 32 <<< 1
    let exchangeToArm := second &&& 0x1000 == 0
    let base := if exchangeToArm then pc + 4 &&& ~~~3 else pc + 4
    setArmStepTarget (base + signExtendU32 encoded 25) (!exchangeToArm) pc
  else if second &&& 0xd000 = 0x8000 ∧ first &&& 0x0380 ≠ 0x0380 then
    let condition := (first >>> 6 &&& 0xf).toNat
    let encoded := (first.setWidth 32 >>> 10 &&& 1) <<< 20 |||
      (second.setWidth 32 >>> 11 &&& 1) <<< 19 ||| (second.setWidth 32 >>> 13 &&& 1) <<< 18 |||
      (first &&& 0x003f).setWidth 32 <<< 12 ||| (second &&& 0x07ff).setWidth 32 <<< 1
    setArmStepTarget (if uvdbArmConditionPassed condition cpsr
      then pc + 4 + signExtendU32 encoded 21 else pc + 4) true pc
  else .unknown

def uvdbThumb32PlanLoadPcAddress : Plan Word :=
  let rn := (first &&& 0xf).toNat
  let base := if rn = 15 then pc + 4 &&& ~~~3 else registers (Fin.ofNat 16 rn)
  let imm12 := (second &&& 0x0fff).setWidth 32
  let imm8 := (second &&& 0x00ff).setWidth 32
  if pc &&& 1 ≠ 0 then .refused
  else if first &&& 0xff70 ≠ 0xf850 ∨ second &&& 0xf000 ≠ 0xf000 then .unknown
  else if rn = 15 then
    .planned (if first &&& 0x0080 ≠ 0 then base + imm12 else base - imm12)
  else if first &&& 0x0080 ≠ 0 then .planned (base + imm12)
  else if second &&& 0x0800 ≠ 0 then
    if second &&& 0x0400 = 0 ∧ second &&& 0x0100 = 0 then .refused
    else .planned (if second &&& 0x0400 ≠ 0 then
      if second &&& 0x0200 ≠ 0 then base + imm8 else base - imm8 else base)
  else if second &&& 0x0fc0 = 0 then
    let rm := (second &&& 0xf).toNat
    if rm = 13 ∨ rm = 15 then .refused
    else .planned (base + registers (Fin.ofNat 16 rm) <<< (second >>> 4 &&& 3).toNat)
  else .refused

def uvdbThumb32InstructionMayWritePc : Bool :=
  decide (first &&& 0xf800 = 0xf000 ∧ second &&& 0x8000 ≠ 0 ∧
      (second &&& 0x1000 ≠ 0 ∨ second &&& 0xd001 = 0xc000 ∨
        second &&& 0xd000 = 0x8000 ∧ first &&& 0x0380 ≠ 0x0380) ∨
    first &&& 0xfff0 = 0xe8d0 ∧ second &&& 0xffe0 = 0xf000 ∨
    first &&& 0xfe50 = 0xe810 ∧
      ((first &&& 0x0080 != 0) = (first &&& 0x0100 != 0) ∨ second &&& 0x8000 ≠ 0) ∨
    first &&& 0xff70 = 0xf850 ∧ second &&& 0xf000 = 0xf000 ∨
    first &&& 0xffef = 0xea4f ∧ second &&& 0xfff0 = 0x0f00 ∨
    first &&& 0xfff0 = 0xf3c0 ∧ second = 0x8f00 ∨
    first = 0xf3de ∧ second &&& 0xff00 = 0x8f00)

def uvdbThumb32InstructionStartsExclusive : Bool :=
  decide (first &&& 0xfff0 = 0xe850 ∨ first &&& 0xfff0 = 0xe8d0 ∧ second &&& 0x00c0 = 0x0040)

end Thumb32

def uvdbStepInstructionMayBlock (instruction : Word) (thumb : Bool) : Bool :=
  if thumb then
    let first : Halfword := instruction.setWidth 16
    let second : Halfword := (instruction >>> 16).setWidth 16
    decide (first &&& 0xff00 = 0xdf00 ∨ first = 0xbf20 ∨ first = 0xbf30 ∨
      first = 0xf3af ∧ (second = 0x8002 ∨ second = 0x8003))
  else
    decide (instruction >>> 28 ≠ 0xf ∧ instruction &&& 0x0f000000 = 0x0f000000 ∨
      instruction &&& 0x0fffffff = 0x0320f002 ∨ instruction &&& 0x0fffffff = 0x0320f003)

def uvdbThumbItstateFromCpsr (cpsr : Word) : ℕ :=
  let high : Word := cpsr >>> 8 &&& 0xfc
  let low : Word := cpsr >>> 25 &&& 3
  (high ||| low).toNat

def uvdbThumbItstateAdvance (itstate : ℕ) : ℕ :=
  if itstate > 0xff ∨ itstate &&& 7 = 0 then 0
  else (itstate &&& 0xe0) ||| (itstate <<< 1 &&& 0x1f)

def uvdbThumbItStepPlacementValid (first second : Halfword) (instructionSize itstate : ℕ) : Bool :=
  if instructionSize ≠ 2 ∧ instructionSize ≠ 4 ∨ itstate > 0xff then false
  else if itstate = 0 then true
  else if instructionSize = 2 ∧ first &&& 0xf500 = 0xb100 then false
  else
    let writesPc :=
      if instructionSize = 2 then uvdbThumb16InstructionMayWritePc first
      else uvdbThumb32InstructionMayWritePc first second
    !writesPc || uvdbThumbItstateAdvance itstate == 0

def uvdbStepWordAddressValid (address : Word) : Bool := address &&& 3 == 0

def uvdbStepCpsrStateSupported (cpsr : Word) : Bool := cpsr &&& 0x01000200 == 0

end VitaDebugger.StepPlanner
