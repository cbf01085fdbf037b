import VitaDebugger.BitField

/-! What the ARMv7-A architecture says about the next instruction of a user-mode program in
ARM state: the encodings that write the program counter, the conditions, the shifter and the
interworking branches. An outcome the architecture leaves open is `none`. -/

namespace VitaDebugger.ArmArchitecture
open BitField

abbrev Word := BitVec 32
abbrev Registers := Fin 16 → Word

instance sixteen : NeZero 16 := ⟨by decide⟩

/-- Bytes that can be read. -/
abbrev Memory := Word → Option (BitVec 8)

inductive InstructionSet where
  | arm
  | thumb
  deriving DecidableEq

/-- Where a program goes next, and in which state. -/
structure Successor where
  address : Word
  state : InstructionSet
  deriving DecidableEq

def readHalfword (memory : Memory) (address : Word) : Option (BitVec 16) := do
  let low ← memory address
  let high ← memory (address + 1)
  pure (high ++ low)

def readWord (memory : Memory) (address : Word) : Option Word := do
  let low ← readHalfword memory address
  let high ← readHalfword memory (address + 2)
  pure (high ++ low)

/-- The address with its low `n` bits clear. -/
def clearLow (n : ℕ) (address : Word) : Word := (address >>> n) <<< n

def branchWritePC (state : InstructionSet) (address : Word) : Successor :=
  match state with
  | .arm => ⟨clearLow 2 address, .arm⟩
  | .thumb => ⟨clearLow 1 address, .thumb⟩

/-- Bit 0 selects the state; an ARM address that is no multiple of four is unpredictable. -/
def bxWritePC (address : Word) : Option Successor :=
  if address.getLsbD 0 then some (branchWritePC .thumb address)
  else if address.getLsbD 1 then none
  else some (branchWritePC .arm address)

def conditionPassed (cond : ℕ) (cpsr : Word) : Bool :=
  let n := cpsr.getLsbD 31
  let z := cpsr.getLsbD 30
  let c := cpsr.getLsbD 29
  let v := cpsr.getLsbD 28
  let result := match cond / 2 with
    | 0 => z
    | 1 => c
    | 2 => n
    | 3 => v
    | 4 => c && !z
    | 5 => n == v
    | 6 => n == v && !z
    | _ => true
  if cond % 2 = 1 ∧ cond ≠ 15 then !result else result

inductive ShiftKind where
  | lsl
  | lsr
  | asr
  | ror
  | rrx
  deriving DecidableEq

def decodeImmShift (kind imm5 : ℕ) : ShiftKind × ℕ :=
  match kind with
  | 0 => (.lsl, imm5)
  | 1 => (.lsr, if imm5 = 0 then 32 else imm5)
  | 2 => (.asr, if imm5 = 0 then 32 else imm5)
  | _ => if imm5 = 0 then (.rrx, 1) else (.ror, imm5)

def shift (value : Word) (kind : ShiftKind) (amount : ℕ) (carry : Bool) : Word :=
  match kind with
  | .lsl => value <<< amount
  | .lsr => value >>> amount
  | .asr => value.sshiftRight amount
  | .ror => value.rotateRight amount
  | .rrx => BitVec.cons carry (value.extractLsb' 1 31)

def armExpandImm (imm12 : ℕ) : Word :=
  (BitVec.ofNat 32 (imm12 % 256)).rotateRight (2 * (imm12 / 256))

def addWithCarry (x y : Word) (carry : Bool) : Word := x + y + (BitVec.ofBool carry).setWidth 32

inductive DataOperation where
  | and
  | eor
  | sub
  | rsb
  | add
  | adc
  | sbc
  | rsc
  | orr
  | mov
  | bic
  | mvn
  deriving DecidableEq

/-- The operations that write a register; the other codes compare. -/
def DataOperation.ofCode : ℕ → Option DataOperation
  | 0 => some .and
  | 1 => some .eor
  | 2 => some .sub
  | 3 => some .rsb
  | 4 => some .add
  | 5 => some .adc
  | 6 => some .sbc
  | 7 => some .rsc
  | 12 => some .orr
  | 13 => some .mov
  | 14 => some .bic
  | 15 => some .mvn
  | _ => none

def DataOperation.result (operation : DataOperation) (rn operand : Word) (carry : Bool) : Word :=
  match operation with
  | .and => rn &&& operand
  | .eor => rn ^^^ operand
  | .sub => addWithCarry rn (~~~operand) true
  | .rsb => addWithCarry (~~~rn) operand true
  | .add => addWithCarry rn operand false
  | .adc => addWithCarry rn operand carry
  | .sbc => addWithCarry rn (~~~operand) carry
  | .rsc => addWithCarry (~~~rn) operand carry
  | .orr => rn ||| operand
  | .mov => operand
  | .bic => rn &&& ~~~operand
  | .mvn => ~~~operand

inductive Operand where
  | immediate (imm12 : ℕ)
  | shifted (rm kind imm5 : ℕ)
  deriving DecidableEq

/-- The instructions that may write the program counter; `registers` is a register list. -/
inductive ArmInstruction where
  | branch (imm24 : ℕ)
  | branchLinkExchange (imm24 h : ℕ)
  | branchExchange (rm : ℕ)
  | branchLinkExchangeRegister (rm : ℕ)
  | dataProcessing (operation : DataOperation) (setFlags : Bool) (rn rd : ℕ) (operand : Operand)
  | load (index add : Bool) (rn rt : ℕ) (offset : Operand)
  | loadMultiple (before increment : Bool) (rn : ℕ) (registers : BitVec 16)
  | other
  deriving DecidableEq

def decodeOperand (instruction : Word) (immediate : Bool) : Operand :=
  if immediate then .immediate (bits instruction 11 0)
  else .shifted (bits instruction 3 0) (bits instruction 6 5) (bits instruction 11 7)

def decodeDataProcessing (instruction : Word) (immediate : Bool) : ArmInstruction :=
  match DataOperation.ofCode (bits instruction 24 21) with
  | none => .other
  | some operation =>
    .dataProcessing operation (bits instruction 20 20 = 1) (bits instruction 19 16)
      (bits instruction 15 12) (decodeOperand instruction immediate)

/-- Word loads. With post-indexing and write-back it is an unprivileged load. -/
def decodeLoad (instruction : Word) (immediate : Bool) : ArmInstruction :=
  if bits instruction 22 22 = 1 ∨ bits instruction 20 20 = 0 ∨
      bits instruction 24 24 = 0 ∧ bits instruction 21 21 = 1 then .other
  else .load (bits instruction 24 24 = 1) (bits instruction 23 23 = 1) (bits instruction 19 16)
    (bits instruction 15 12) (decodeOperand instruction immediate)

/-- Multiple loads without the bit that selects another mode's registers. -/
def decodeLoadMultiple (instruction : Word) : ArmInstruction :=
  if bits instruction 22 22 = 1 ∨ bits instruction 20 20 = 0 then .other
  else .loadMultiple (bits instruction 24 24 = 1) (bits instruction 23 23 = 1)
    (bits instruction 19 16) (instruction.setWidth 16)

def decodeArm (instruction : Word) : ArmInstruction :=
  if bits instruction 31 28 = 15 then
    if bits instruction 27 25 = 5 then
      .branchLinkExchange (bits instruction 23 0) (bits instruction 24 24)
    else .other
  else match bits instruction 27 25 with
    | 0 =>
      if bits instruction 27 4 = 0x12fff1 then .branchExchange (bits instruction 3 0)
      else if bits instruction 27 4 = 0x12fff3 then
        .branchLinkExchangeRegister (bits instruction 3 0)
      else if bits instruction 4 4 = 0 then decodeDataProcessing instruction false
      else .other
    | 1 => decodeDataProcessing instruction true
    | 2 => decodeLoad instruction true
    | 3 => if bits instruction 4 4 = 0 then decodeLoad instruction false else .other
    | 4 => decodeLoadMultiple instruction
    | 5 => .branch (bits instruction 23 0)
    | _ => .other

/-- Branches, exchanges and results written to the program counter that leave the flags alone. -/
def ArmInstruction.branchesDirectly : ArmInstruction → Bool
  | .branch _ => true
  | .branchLinkExchange _ _ => true
  | .branchExchange _ => true
  | .branchLinkExchangeRegister _ => true
  | .dataProcessing _ setFlags _ rd _ => !setFlags && rd == 15
  | _ => false

/-- The defined encodings that can write the program counter when they are executed. The
operation codes from 8 to 11 compare and write no register. -/
def ArmWritesPC (x : Word) : Prop :=
  if bits x 31 28 = 15 then
    -- an immediate branch with exchange, and a return from an exception
    bits x 27 25 = 5 ∨
    bits x 27 25 = 4 ∧ bits x 22 22 = 0 ∧ bits x 20 20 = 1 ∧ bits x 15 0 = 0x0a00
  else
    -- branches, exchanges through a register, the other return
    bits x 27 25 = 5 ∨ bits x 27 4 = 0x12fff1 ∨ bits x 27 4 = 0x12fff2 ∨
    bits x 27 4 = 0x12fff3 ∨ bits x 27 0 = 0x160006e ∨
    -- multiple and single word loads
    bits x 27 25 = 4 ∧ bits x 20 20 = 1 ∧ bits x 15 15 = 1 ∨
    bits x 27 26 = 1 ∧ bits x 22 22 = 0 ∧ bits x 20 20 = 1 ∧ bits x 15 12 = 15 ∧
      (bits x 25 25 = 0 ∨ bits x 4 4 = 0) ∨
    -- operations on an immediate or a shifted register
    bits x 15 12 = 15 ∧ ¬(8 ≤ bits x 24 21 ∧ bits x 24 21 ≤ 11) ∧
      (bits x 27 25 = 1 ∨ bits x 27 25 = 0 ∧ (bits x 4 4 = 0 ∨ bits x 7 7 = 0))

instance (x : Word) : Decidable (ArmWritesPC x) := inferInstanceAs (Decidable (ite _ _ _))

/-- Supervisor calls and the two hints that wait. -/
def ArmWaits (x : Word) : Prop := bits x 31 28 ≠ 15 ∧
    (bits x 27 24 = 15 ∨ bits x 27 0 = 0x320f002 ∨ bits x 27 0 = 0x320f003)

instance (x : Word) : Decidable (ArmWaits x) := inferInstanceAs (Decidable (_ ∧ _))

/-- The loads that begin an exclusive access. -/
def ArmLoadsExclusive (x : Word) : Prop :=
  bits x 31 28 ≠ 15 ∧ bits x 27 23 = 3 ∧ bits x 20 20 = 1 ∧ bits x 7 4 = 9

instance (x : Word) : Decidable (ArmLoadsExclusive x) := inferInstanceAs (Decidable (_ ∧ _))

/-- Whether the processor executes a word or passes over it. -/
def armExecutes (cpsr x : Word) : Bool :=
  decide (bits x 31 28 = 15) || conditionPassed (bits x 31 28) cpsr

section Execution
variable (pc cpsr : Word) (registers : Registers)

/-- A register as an operand; the program counter reads two instructions ahead. -/
def armRegister (n : ℕ) : Word := if n = 15 then pc + 8 else registers (Fin.ofNat 16 n)

def operandValue : Operand → Word
  | .immediate imm12 => armExpandImm imm12
  | .shifted rm kind imm5 =>
    shift (armRegister pc registers rm) (decodeImmShift kind imm5).1 (decodeImmShift kind imm5).2
      (cpsr.getLsbD 29)

/-- Where an executed instruction goes, for those that compute it without memory. -/
def armTransfer : ArmInstruction → Option Successor
  | .branch imm24 =>
    some (branchWritePC .arm (pc + 8 + (BitVec.ofNat 26 (imm24 * 4)).signExtend 32))
  | .branchLinkExchange imm24 h => some (branchWritePC .thumb
      (clearLow 2 (pc + 8) + (BitVec.ofNat 26 (imm24 * 4 + h * 2)).signExtend 32))
  | .branchExchange rm => bxWritePC (armRegister pc registers rm)
  | .branchLinkExchangeRegister rm =>
    if rm = 15 then none else bxWritePC (armRegister pc registers rm)
  | .dataProcessing operation setFlags rn rd operand =>
    if rd = 15 ∧ ¬setFlags then bxWritePC (operation.result (armRegister pc registers rn)
      (operandValue pc cpsr registers operand) (cpsr.getLsbD 29))
    else none
  | _ => none

/-- The successor of a conditional or unconditional instruction. -/
def armSuccessor (instruction : Word) : Option Successor :=
  if bits instruction 31 28 ≠ 15 ∧ ¬conditionPassed (bits instruction 31 28) cpsr then
    some ⟨pc + 4, .arm⟩
  else armTransfer pc cpsr registers (decodeArm instruction)

/-- The address an executed load of the program counter reads. -/
def armLoadAddress : ArmInstruction → Option Word
  | .load index add rn 15 offset =>
    let base := if rn = 15 then clearLow 2 (pc + 8) else registers (Fin.ofNat 16 rn)
    let value := match offset with
      | .immediate imm12 => BitVec.ofNat 32 imm12
      | .shifted rm kind imm5 => operandValue pc cpsr registers (.shifted rm kind imm5)
    some (if index then if add then base + value else base - value else base)
  | _ => none

/-- The addresses of a multiple load, one word for each selected register below the `n`th. -/
def transferAddress (start : Word) (list : BitVec 16) : ℕ → Word
  | 0 => start
  | n + 1 => transferAddress start list n + if list.getLsbD n then 4 else 0

def bitCount (list : BitVec 16) : ℕ := (List.range 16).countP fun i => list.getLsbD i

def startAddress (before increment : Bool) (base : Word) (list : BitVec 16) : Word :=
  match before, increment with
  | false, true => base
  | true, true => base + 4
  | false, false => base - BitVec.ofNat 32 (4 * bitCount list) + 4
  | true, false => base - BitVec.ofNat 32 (4 * bitCount list)

/-- The address of the word a multiple load puts into the program counter. -/
def armMultiplePcAddress : ArmInstruction → Option Word
  | .loadMultiple before increment rn list =>
    if list.getLsbD 15 then
      some
        (transferAddress (startAddress before increment (registers (Fin.ofNat 16 rn)) list) list 15)
    else none
  | _ => none

end Execution
end VitaDebugger.ArmArchitecture
