import VitaDebugger.StepPlanner

/-! `breakpoint_insert_step` of `uvdb.c`: which trap a single step asks for, or that it is
refused. What the breakpoint table does with the request, and the search for the end of an
exclusive sequence, stay outside. -/

namespace VitaDebugger.StepInsertion
open ArmArchitecture StepPlanner

inductive StepOutcome where
  | refused
  | trap (address : Word) (size : ℕ)
  | exclusiveSequence
  deriving DecidableEq

/-- The saved registers; the program counter is the last of them. -/
structure CoreRegisters where
  r : Registers
  cpsr : Word

def breakpointInsertInternal (address : Word) (size : ℕ) : StepOutcome :=
  let address := address &&& ~~~1
  if size ≠ 2 ∧ size ≠ 4 then .refused
  else if size = 4 ∧ address &&& 3 ≠ 0 then .refused
  else .trap address size

def breakpointInsertStepTargetSized (address : Word) (size : ℕ) (currentPc : Word) : StepOutcome :=
  if size ≠ 2 ∧ size ≠ 4 then .refused
  else if size = 4 ∧ address &&& 3 ≠ 0 then .refused
  else
    let address := address &&& if size = 2 then ~~~1 else ~~~3
    if address = currentPc &&& ~~~1 then .refused else breakpointInsertInternal address size

def breakpointInsertStepTarget (address currentPc : Word) : StepOutcome :=
  breakpointInsertStepTargetSized address (if address &&& 1 ≠ 0 then 2 else 4) currentPc

/-- The trap at the word that is loaded into the program counter. -/
def insertLoaded (memory : Memory) (address currentPc : Word) : StepOutcome :=
  if !uvdbStepWordAddressValid address then .refused
  else match readWord memory address with
    | none => .refused
    | some target => breakpointInsertStepTarget target currentPc

def insertPlanned (target : StepTarget) : StepOutcome :=
  breakpointInsertInternal target.address target.breakpointSize

def popcount {w : ℕ} (word : BitVec w) : ℕ := (List.range w).countP fun i => word.getLsbD i

def thumbSize (first : Halfword) : ℕ :=
  let lead := first >>> 11
  if lead = 0x1d ∨ lead = 0x1e ∨ lead = 0x1f then 4 else 2

/-- The first slot of an IT block that is executed, or the end of the block. -/
def skipThumbSlots (memory : Memory) (cpsr : Word) : ℕ → Word → ℕ → StepOutcome
  | 0, next, _ => breakpointInsertInternal next 2
  | slots + 1, next, itstate =>
    if uvdbArmConditionPassed (itstate >>> 4) cpsr then breakpointInsertInternal next 2
    else match readHalfword memory next with
      | none => .refused
      | some skipped =>
        let next := next + BitVec.ofNat 32 (thumbSize skipped)
        let itstate := uvdbThumbItstateAdvance itstate
        if itstate = 0 then breakpointInsertInternal next 2
        else skipThumbSlots memory cpsr slots next itstate

/-- An IT block has at most four slots. -/
def breakpointInsertAfterThumbIt (memory : Memory) (cpsr pc : Word)
    (instructionSize currentItstate : ℕ) : StepOutcome :=
  let next := pc + BitVec.ofNat 32 instructionSize
  let itstate := uvdbThumbItstateAdvance currentItstate
  if itstate = 0 then breakpointInsertInternal next 2 else skipThumbSlots memory cpsr 4 next itstate

/-- A slot of an IT block with another one behind it. -/
def beforeLastSlot (itstate : ℕ) : Bool := itstate != 0 && uvdbThumbItstateAdvance itstate != 0

section Thumb
variable (memory : Memory) (first second : Halfword) (pc : Word) (core : CoreRegisters)

def insertPop : StepOutcome :=
  insertLoaded memory (core.r 13 + BitVec.ofNat 32 (popcount (first &&& 0xff) * 4)) pc

def insertTableBranch : StepOutcome :=
  let rn := (first &&& 0xf).toNat
  let rm := (second &&& 0xf).toNat
  let halfword := (second >>> 4 &&& 1).toNat
  if rn = 13 ∨ rm = 13 ∨ rm = 15 then .refused
  else
    let base := if rn = 15 then pc + 4 else core.r (Fin.ofNat 16 rn)
    let tableAddress := base + core.r (Fin.ofNat 16 rm) <<< halfword
    let entry := if halfword ≠ 0 then readHalfword memory tableAddress
      else (memory tableAddress).map (·.setWidth 16)
    match entry with
    | none => .refused
    | some offset => breakpointInsertStepTargetSized (pc + 4 + offset.setWidth 32 * 2) 2 pc

/-- The forms of a multiple load that are refused. -/
def loadMultipleRefused : Bool :=
  let rn := (first &&& 0xf).toNat
  decide (rn = 15 ∨ popcount second < 2 ∨ second &&& 0xc000 = 0xc000 ∨
    first &&& 0x20 ≠ 0 ∧ second &&& (1 : Halfword) <<< rn ≠ 0)

def insertLoadMultipleAfter : StepOutcome :=
  if loadMultipleRefused first second then .refused
  else insertLoaded memory (core.r (Fin.ofNat 16 (first &&& 0xf).toNat) +
    BitVec.ofNat 32 (popcount (second &&& 0x7fff) * 4)) pc

def insertLoadMultipleBefore : StepOutcome :=
  if loadMultipleRefused first second then .refused
  else insertLoaded memory (core.r (Fin.ofNat 16 (first &&& 0xf).toNat) - 4) pc

/-- The step over a 32-bit instruction that writes the program counter. -/
def insertThumb32 (itstate : ℕ) : Option StepOutcome :=
  match uvdbThumb32PlanBranchStep first second pc core.cpsr with
  | .refused => some .refused
  | .planned target => some (if beforeLastSlot itstate then .refused else insertPlanned target)
  | .unknown =>
    if first &&& 0xfff0 = 0xe8d0 ∧ second &&& 0xffe0 = 0xf000 then
      some (if beforeLastSlot itstate then .refused
        else insertTableBranch memory first second pc core)
    else if first &&& 0xffd0 = 0xe890 ∧ second &&& 0x8000 ≠ 0 then
      some (if beforeLastSlot itstate then .refused
        else insertLoadMultipleAfter memory first second pc core)
    else if first &&& 0xffd0 = 0xe910 ∧ second &&& 0x8000 ≠ 0 then
      some (if beforeLastSlot itstate then .refused
        else insertLoadMultipleBefore memory first second pc core)
    else match uvdbThumb32PlanLoadPcAddress first second pc core.r with
      | .refused => some .refused
      | .planned address =>
        some (if beforeLastSlot itstate then .refused else insertLoaded memory address pc)
      | .unknown => if uvdbThumb32InstructionMayWritePc first second then some .refused else none

/-- Past an instruction that does not write the program counter. -/
def insertThumbNext (itstate : ℕ) : StepOutcome :=
  if itstate ≠ 0 then
    breakpointInsertAfterThumbIt memory core.cpsr pc (thumbSize first) itstate
  else breakpointInsertInternal (pc + BitVec.ofNat 32 (thumbSize first)) 2

def insertThumbDecoded (itstate : ℕ) : StepOutcome :=
  match uvdbThumb16PlanDirectStep first pc core.cpsr core.r with
  | .refused => .refused
  | .planned target => if beforeLastSlot itstate then .refused else insertPlanned target
  | .unknown =>
    if first &&& 0xff00 = 0xbf00 ∧ first &&& 0x000f ≠ 0 ∧ first &&& 0x00f0 ≠ 0x00f0 then
      skipThumbSlots memory core.cpsr 4 (pc + 2) (first &&& 0xff).toNat
    else if first &&& 0xff00 = 0xbd00 then
      if beforeLastSlot itstate then .refused else insertPop memory first pc core
    else if thumbSize first = 4 then
      match insertThumb32 memory first second pc core itstate with
      | some outcome => outcome
      | none => insertThumbNext memory first pc core itstate
    else if uvdbThumb16InstructionMayWritePc first then .refused
    else insertThumbNext memory first pc core itstate

def insertThumbStep (holdPeers : Bool) : StepOutcome :=
  let itstate := uvdbThumbItstateFromCpsr core.cpsr
  if holdPeers ∧ uvdbStepInstructionMayBlock (second ++ first) true then .refused
  else if thumbSize first = 4 ∧ uvdbThumb32InstructionStartsExclusive first second then
    if itstate ≠ 0 then .refused else .exclusiveSequence
  else if !uvdbThumbItStepPlacementValid first second (thumbSize first) itstate then .refused
  else if itstate ≠ 0 ∧ !uvdbArmConditionPassed (itstate >>> 4) core.cpsr then
    breakpointInsertAfterThumbIt memory core.cpsr pc (thumbSize first) itstate
  else insertThumbDecoded memory first second pc core itstate

end Thumb

section Arm
variable (memory : Memory) (instruction pc : Word) (core : CoreRegisters)

/-- Where the word for the program counter stands in the transfer area. -/
def armSavedPcAddress : Word :=
  let base := core.r (Fin.ofNat 16 (instruction >>> 16 &&& 0xf).toNat)
  let before := (instruction >>> 24 &&& 1).toNat
  if instruction >>> 23 &&& 1 ≠ 0 then
    base + BitVec.ofNat 32 ((popcount (instruction &&& 0x7fff) + before) * 4)
  else base - if before ≠ 0 then 4 else 0

def insertArmLoadMultiple : StepOutcome :=
  let rn := (instruction >>> 16 &&& 0xf).toNat
  if !uvdbArmConditionPassed (instruction >>> 28).toNat core.cpsr then
    breakpointInsertInternal (pc + 4) 4
  else if instruction &&& (1 : Word) <<< 22 ≠ 0 then .refused
  else if rn = 15 ∨ popcount (instruction &&& 0xffff) < 2 ∨
      instruction &&& (1 : Word) <<< 21 ≠ 0 ∧ instruction &&& (1 : Word) <<< rn ≠ 0 then .refused
  else insertLoaded memory (armSavedPcAddress instruction core) pc

def insertArmStep (holdPeers : Bool) : StepOutcome :=
  let condition := (instruction >>> 28).toNat
  if holdPeers ∧ uvdbStepInstructionMayBlock instruction false then .refused
  else if uvdbArmInstructionStartsExclusive instruction then
    if condition ≠ 0xf ∧ !uvdbArmConditionPassed condition core.cpsr then
      breakpointInsertInternal (pc + 4) 4
    else .exclusiveSequence
  else match uvdbArmPlanDirectStep instruction pc core.cpsr core.r with
    | .refused => .refused
    | .planned target => insertPlanned target
    | .unknown =>
      if instruction &&& 0x0e108000 = 0x08108000 then
        insertArmLoadMultiple memory instruction pc core
      else match uvdbArmPlanLoadPcAddress instruction pc core.cpsr core.r with
        | .refused => .refused
        | .planned address => insertLoaded memory address pc
        | .unknown =>
          if uvdbArmInstructionMayWritePc instruction then
            if condition ≠ 0xf ∧ !uvdbArmConditionPassed condition core.cpsr then
              breakpointInsertInternal (pc + 4) 4
            else .refused
          else breakpointInsertInternal (pc + 4) 4

end Arm

def breakpointInsertStep (memory : Memory) (core : CoreRegisters) (holdPeers : Bool) :
    StepOutcome :=
  let pc := core.r 15
  if !uvdbStepCpsrStateSupported core.cpsr then .refused
  else if core.cpsr &&& 32 ≠ 0 then
    match readHalfword memory pc with
    | none => .refused
    | some first =>
      match if thumbSize first = 4 then readHalfword memory (pc + 2) else some 0 with
      | none => .refused
      | some second => insertThumbStep memory first second pc core holdPeers
  else match readWord memory pc with
    | none => .refused
    | some instruction => insertArmStep memory instruction pc core holdPeers

end VitaDebugger.StepInsertion
