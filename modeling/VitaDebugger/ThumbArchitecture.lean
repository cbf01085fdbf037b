import VitaDebugger.ArmArchitecture

/-! What the ARMv7-A architecture says about the next instruction in Thumb state, for the
instructions that branch, load the program counter or move a register to it. A register list
selects the words of a multiple load as it stands in the encoding. -/

namespace VitaDebugger.ThumbArchitecture
open BitField ArmArchitecture

/-- The offsets of a word load. -/
inductive ThumbOffset where
  | positive (imm12 : ℕ)
  | indexed (index add : Bool) (imm8 : ℕ)
  | register (rm imm2 : ℕ)
  deriving DecidableEq

/-- `other` stands for the instructions that are not described here. -/
inductive ThumbInstruction where
  | conditionalBranch (cond imm8 : ℕ)
  | branch (imm11 : ℕ)
  | compareBranch (nonzero : Bool) (i imm5 rn : ℕ)
  | branchExchange (rm : ℕ)
  | branchLinkExchangeRegister (rm : ℕ)
  | move (rm : ℕ)
  | wideConditionalBranch (cond s j2 j1 imm6 imm11 : ℕ)
  | wideBranch (s j1 j2 imm10 imm11 : ℕ)
  | branchLinkExchange (s j1 j2 imm10 imm10L : ℕ)
  | tableBranch (rn rm : ℕ) (halfwords : Bool)
  | loadMultiple (before : Bool) (rn : ℕ) (registers : BitVec 16)
  | loadLiteral (add : Bool) (imm12 : ℕ)
  | load (rn : ℕ) (offset : ThumbOffset)
  | other
  deriving DecidableEq

/-- A pop of the program counter is a multiple load from the stack pointer. -/
def decodeThumb16 (first : BitVec 16) : ThumbInstruction :=
  match bits first 15 12 with
  | 4 =>
    if bits first 11 8 = 7 then
      if bits first 7 7 = 0 then .branchExchange (bits first 6 3)
      else .branchLinkExchangeRegister (bits first 6 3)
    else if bits first 11 8 = 6 ∧ bits first 7 7 = 1 ∧ bits first 2 0 = 7 then
      .move (bits first 6 3)
    else .other
  | 11 =>
    if bits first 10 10 = 0 ∧ bits first 8 8 = 1 then
      .compareBranch (bits first 11 11 = 1) (bits first 9 9) (bits first 7 3) (bits first 2 0)
    else if bits first 11 8 = 13 then
      .loadMultiple false 13 (BitVec.ofNat 16 (2 ^ 15 + bits first 7 0))
    else .other
  | 13 =>
    if bits first 11 8 < 14 then .conditionalBranch (bits first 11 8) (bits first 7 0) else .other
  | 14 => if bits first 11 11 = 0 then .branch (bits first 10 0) else .other
  | _ => .other

def decodeBranch (first second : BitVec 16) : ThumbInstruction :=
  let s := bits first 10 10
  let j1 := bits second 13 13
  let j2 := bits second 11 11
  if bits second 12 12 = 1 then .wideBranch s j1 j2 (bits first 9 0) (bits second 10 0)
  else if bits second 14 14 = 1 then
    if bits second 0 0 = 1 then .other
    else .branchLinkExchange s j1 j2 (bits first 9 0) (bits second 10 1)
  else if bits first 9 7 = 7 then .other
  else .wideConditionalBranch (bits first 9 6) s j2 j1 (bits first 5 0) (bits second 10 0)

/-- Loads of the program counter; the remaining forms are undefined. -/
def decodeThumbLoad (first second : BitVec 16) : ThumbInstruction :=
  let rn := bits first 3 0
  if rn = 15 then .loadLiteral (bits first 7 7 = 1) (bits second 11 0)
  else if bits first 7 7 = 1 then .load rn (.positive (bits second 11 0))
  else if bits second 11 11 = 1 then
    if bits second 10 10 = 0 ∧ bits second 8 8 = 0 then .other
    else .load rn (.indexed (bits second 10 10 = 1) (bits second 9 9 = 1) (bits second 7 0))
  else if bits second 11 6 = 0 then .load rn (.register (bits second 3 0) (bits second 5 4))
  else .other

def decodeThumb32 (first second : BitVec 16) : ThumbInstruction :=
  if bits first 15 11 = 0x1e ∧ bits second 15 15 = 1 then decodeBranch first second
  else if bits first 15 4 = 0xe8d ∧ bits second 15 5 = 0x780 then
    .tableBranch (bits first 3 0) (bits second 3 0) (bits second 4 4 = 1)
  else if bits first 15 6 = 0x3a2 ∧ bits first 4 4 = 1 ∧ bits second 15 15 = 1 then
    .loadMultiple false (bits first 3 0) second
  else if bits first 15 6 = 0x3a4 ∧ bits first 4 4 = 1 ∧ bits second 15 15 = 1 then
    .loadMultiple true (bits first 3 0) second
  else if bits first 15 8 = 0xf8 ∧ bits first 6 4 = 5 ∧ bits second 15 12 = 15 then
    decodeThumbLoad first second
  else .other

/-- The defined short encodings that can write the program counter: branches, exchanges,
additions and moves to it, and pops. -/
def Thumb16WritesPC (first : BitVec 16) : Prop :=
  bits first 15 12 = 13 ∧ bits first 11 8 < 14 ∨ bits first 15 11 = 28 ∨
  bits first 15 12 = 11 ∧ bits first 10 10 = 0 ∧ bits first 8 8 = 1 ∨
  bits first 15 8 = 0x47 ∧ bits first 2 0 = 0 ∨
  (bits first 15 8 = 0x44 ∨ bits first 15 8 = 0x46) ∧ bits first 7 7 = 1 ∧ bits first 2 0 = 7 ∨
  bits first 15 8 = 0xbd

/-- The wide ones: branches, table branches, multiple and single loads, returns from an
exception and the exchange to the bytecode state. -/
def Thumb32WritesPC (first second : BitVec 16) : Prop :=
  bits first 15 11 = 0x1e ∧ bits second 15 15 = 1 ∧ (bits second 12 12 = 1 ∨
    bits second 14 14 = 1 ∧ bits second 0 0 = 0 ∨ bits second 14 14 = 0 ∧ bits first 9 7 ≠ 7) ∨
  bits first 15 4 = 0xe8d ∧ bits second 15 5 = 0x780 ∨
  (bits first 15 6 = 0x3a2 ∨ bits first 15 6 = 0x3a4) ∧ bits first 4 4 = 1 ∧ bits second 15 15 = 1 ∨
  (bits first 15 6 = 0x3a0 ∨ bits first 15 6 = 0x3a6) ∧ bits first 4 4 = 1 ∧
    bits second 15 0 = 0xc000 ∨
  bits first 15 8 = 0xf8 ∧ bits first 6 4 = 5 ∧ bits second 15 12 = 15 ∨
  bits first 15 0 = 0xf3de ∧ bits second 15 8 = 0x8f ∨
  bits first 15 4 = 0xf3c ∧ bits second 15 0 = 0x8f00

instance (first : BitVec 16) : Decidable (Thumb16WritesPC first) :=
  inferInstanceAs (Decidable (_ ∨ _))

instance (first second : BitVec 16) : Decidable (Thumb32WritesPC first second) :=
  inferInstanceAs (Decidable (_ ∨ _))

/-- The state of an IT block: the base condition in the high bits, the slots left below. -/
def itState (cpsr : Word) : ℕ := bits cpsr 15 10 * 4 + bits cpsr 26 25

/-- The state of the next slot; behind the last one it is zero. -/
def itAdvance (it : ℕ) : ℕ := if it % 8 = 0 then 0 else it / 32 * 32 + it * 2 % 32

/-- The instruction that opens a block; without a mask it is a hint. -/
def IfThen (first : BitVec 16) : Prop := bits first 15 8 = 0xbf ∧ bits first 3 0 ≠ 0

instance (first : BitVec 16) : Decidable (IfThen first) := inferInstanceAs (Decidable (_ ∧ _))

/-- Outside a block, or in a slot of one whose condition passes. A block without a condition is
unpredictable. -/
def thumbExecutes (cpsr : Word) : Bool := decide (itState cpsr = 0) ||
    decide (itState cpsr / 2 ^ 4 < 15) && conditionPassed (itState cpsr / 2 ^ 4) cpsr

def thumbLength (first : BitVec 16) : ℕ := if 29 ≤ bits first 15 11 then 4 else 2

/-- Walking from a slot over those whose condition fails. A breakpoint instruction is never passed
over, whatever its condition. -/
inductive Skips (memory : Memory) (flags start : Word) (it₀ : ℕ) : Word → ℕ → Prop
  | start : Skips memory flags start it₀ start it₀
  | slot {address : Word} {it : ℕ} {first : BitVec 16}
      (before : Skips memory flags start it₀ address it) (inside : it ≠ 0)
      (conditional : it / 16 < 15) (fails : conditionPassed (it / 16) flags = false)
      (fetched : readHalfword memory address = some first) (passable : bits first 15 8 ≠ 0xbe) :
      Skips memory flags start it₀ (address + BitVec.ofNat 32 (thumbLength first)) (itAdvance it)

/-- The flags a comparison of two registers leaves. -/
def compareFlags (x y cpsr : Word) : Word :=
  let result := x - y
  let overflow := x.msb != y.msb && x.msb != result.msb
  BitVec.ofBool result.msb ++ BitVec.ofBool (result == 0) ++ BitVec.ofBool (y.toNat ≤ x.toNat) ++
    BitVec.ofBool overflow ++ cpsr.extractLsb' 0 28

/-- The instruction at an address: one halfword, or two. -/
def fetchThumb (memory : Memory) (pc : Word) : Option ThumbInstruction := do
  let first ← readHalfword memory pc
  if 29 ≤ bits first 15 11 then
    let second ← readHalfword memory (pc + 2)
    pure (decodeThumb32 first second)
  else pure (decodeThumb16 first)

section Execution
variable (memory : Memory) (pc cpsr : Word) (registers : Registers)

/-- A register as an operand; the program counter reads four bytes ahead. -/
def thumbRegister (n : ℕ) : Word := if n = 15 then pc + 4 else registers (Fin.ofNat 16 n)

/-- `ADD PC, Rm`: the sum reads the program counter as it is, without aligning it. -/
def addToPC (rm : ℕ) : Successor :=
  branchWritePC .thumb (thumbRegister pc registers 15 + thumbRegister pc registers rm)

/-- The complemented exclusive or that a wide branch stores its high bits under. -/
def highBit (j s : ℕ) : ℕ := if j = s then 1 else 0

def wideOffset (s j1 j2 imm10 imm11 : ℕ) : Word :=
  (BitVec.ofNat 25 (s * 2 ^ 24 + highBit j1 s * 2 ^ 23 + highBit j2 s * 2 ^ 22 + imm10 * 2 ^ 12 +
    imm11 * 2)).signExtend 32

/-- A word that is loaded into the program counter. -/
def loadWritePC (address : Word) : Option Successor :=
  if address.toNat % 4 = 0 then (readWord memory address).bind bxWritePC else none

def tableEntry (address : Word) (halfwords : Bool) : Option Word :=
  if halfwords then (readHalfword memory address).map (·.setWidth 32)
  else (memory address).map (·.setWidth 32)

def thumbLoadAddress (rn : ℕ) : ThumbOffset → Word
  | .positive imm12 => registers (Fin.ofNat 16 rn) + BitVec.ofNat 32 imm12
  | .indexed index add imm8 =>
    let base := registers (Fin.ofNat 16 rn)
    if index then if add then base + BitVec.ofNat 32 imm8 else base - BitVec.ofNat 32 imm8
    else base
  | .register rm imm2 =>
    registers (Fin.ofNat 16 rn) + registers (Fin.ofNat 16 rm) <<< imm2

def thumbSuccessor : ThumbInstruction → Option Successor
  | .conditionalBranch cond imm8 =>
    some (branchWritePC .thumb (if conditionPassed cond cpsr
      then pc + 4 + (BitVec.ofNat 9 (imm8 * 2)).signExtend 32 else pc + 2))
  | .branch imm11 =>
    some (branchWritePC .thumb (pc + 4 + (BitVec.ofNat 12 (imm11 * 2)).signExtend 32))
  | .compareBranch nonzero i imm5 rn =>
    some (branchWritePC .thumb (if nonzero = (registers (Fin.ofNat 16 rn) != 0)
      then pc + 4 + BitVec.ofNat 32 (i * 64 + imm5 * 2) else pc + 2))
  | .branchExchange rm => bxWritePC (thumbRegister pc registers rm)
  | .branchLinkExchangeRegister rm =>
    if rm = 15 then none else bxWritePC (thumbRegister pc registers rm)
  | .move rm => some (branchWritePC .thumb (thumbRegister pc registers rm))
  | .wideConditionalBranch cond s j2 j1 imm6 imm11 =>
    some (branchWritePC .thumb (if conditionPassed cond cpsr
      then pc + 4 + (BitVec.ofNat 21 (s * 2 ^ 20 + j2 * 2 ^ 19 + j1 * 2 ^ 18 + imm6 * 2 ^ 12 +
        imm11 * 2)).signExtend 32
      else pc + 4))
  | .wideBranch s j1 j2 imm10 imm11 =>
    some (branchWritePC .thumb (pc + 4 + wideOffset s j1 j2 imm10 imm11))
  | .branchLinkExchange s j1 j2 imm10 imm10L =>
    some (branchWritePC .arm (clearLow 2 (pc + 4) + wideOffset s j1 j2 imm10 (imm10L * 2)))
  | .tableBranch rn rm halfwords => do
    let base := thumbRegister pc registers rn
    let index := thumbRegister pc registers rm
    let entry ← tableEntry memory (base + if halfwords then index <<< 1 else index) halfwords
    pure (branchWritePC .thumb (pc + 4 + 2 * entry))
  | .loadMultiple before rn list => loadWritePC memory
      (transferAddress (startAddress before (!before) (registers (Fin.ofNat 16 rn)) list) list 15)
  | .loadLiteral add imm12 =>
    let base := clearLow 2 (pc + 4)
    loadWritePC memory (if add then base + BitVec.ofNat 32 imm12 else base - BitVec.ofNat 32 imm12)
  | .load rn offset => loadWritePC memory (thumbLoadAddress registers rn offset)
  | .other => none

end Execution
end VitaDebugger.ThumbArchitecture
