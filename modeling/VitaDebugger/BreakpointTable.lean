import VitaDebugger.BreakpointPatch
import Mathlib.Data.List.FinRange
import Mathlib.Tactic.Push

/-! The table of software breakpoints of `uvdb.c`. Every operation searches the
table by address and drives one slot at a time through the patch callbacks. -/

namespace VitaDebugger.BreakpointTable
open AtomicProgram BreakpointPatch List

abbrev maxBreakpoints : ℕ := 32

abbrev Index := Fin maxBreakpoints

structure Breakpoint where
  patch : PatchSlot
  temporary : Bool

structure BreakpointState where
  mem : Memory
  breakpoints : Index → Breakpoint

abbrev Table := Prog BreakpointState IoReply

def clearedBreakpoint : Breakpoint := ⟨.cleared, false⟩

def emptyTable (mem : Memory) : BreakpointState := ⟨mem, fun _ => clearedBreakpoint⟩

def setBreakpoint (i : Index) (b : Breakpoint) (s : BreakpointState) : BreakpointState :=
  { s with breakpoints := Function.update s.breakpoints i b }

def setTemporary (i : Index) (temporary : Bool) (s : BreakpointState) : BreakpointState :=
  setBreakpoint i { s.breakpoints i with temporary } s

/-- Entry `i` as the slot of a patch operation. -/
def slotPart (i : Index) : Prog.Part BreakpointState SlotTarget IoReply IoReply where
  view s := ⟨(s.breakpoints i).patch, s.mem⟩
  put s t := ⟨t.mem, Function.update s.breakpoints i { s.breakpoints i with patch := t.slot }⟩
  answer := id
  view_put _ _ := by simp
  put_put _ _ _ := by simp
  put_view _ := by simp

def rangesOverlap (first firstSize second secondSize : ℕ) : Prop := firstSize ≠ 0 ∧ secondSize ≠ 0 ∧
    if first ≤ second then second - first < firstSize else first - second < secondSize

instance (first firstSize second secondSize : ℕ) :
    Decidable (rangesOverlap first firstSize second secondSize) :=
  inferInstanceAs (Decidable (_ ∧ _))

/-- The C mask `address & ~1`. -/
def clearBit0 (address : ℕ) : ℕ := address - address % 2

def Occupied (b : Breakpoint) : Prop := b.patch.state ≠ .empty

instance (b : Breakpoint) : Decidable (Occupied b) := inferInstanceAs (Decidable (_ ≠ _))

def breakpointFind (breakpoints : Index → Breakpoint) (address : ℕ) : Option Index :=
  (finRange maxBreakpoints).find? fun i =>
    Occupied (breakpoints i) ∧ (breakpoints i).patch.address = clearBit0 address

def thumbUdf : Bytes := [0x00, 0xde]

def armUdf : Bytes := [0xf0, 0x00, 0xf0, 0xe7]

def trapFor (size : ℕ) : Bytes := if size = 2 then thumbUdf else armUdf

def breakpointFreeSlot (breakpoints : Index → Breakpoint) : Option Index :=
  (finRange maxBreakpoints).find? fun i => ¬Occupied (breakpoints i)

/-- The installation at the free entry `i`; an entry left empty drops its flag. -/
def insertAt (i : Index) (address size : ℕ) (temporary : Bool) : Table ℤ := do
  Prog.modify (setTemporary i temporary)
  let result ← (breakpointPatchInstall address (trapFor size)).lift (slotPart i)
  Prog.modify fun s => if Occupied (s.breakpoints i) then s else setTemporary i false s
  pure result.code

def breakpointInsertInternal (address size : ℕ) (temporary : Bool) : Table ℤ := do
  let address := clearBit0 address
  if size ≠ 2 ∧ size ≠ 4 then pure (-1)
  else if size = 4 ∧ address % 4 ≠ 0 then pure (-1)
  else
    let breakpoints ← Prog.read (·.breakpoints)
    match breakpointFind breakpoints address with
    | some i =>
      if (breakpoints i).patch.size ≠ size then pure (-1)
      else if (breakpoints i).patch.state = .installed then pure 0
      else pure PatchResult.restorePending.code
    | none =>
      if ∃ i, Occupied (breakpoints i) ∧
          rangesOverlap address size (breakpoints i).patch.address (breakpoints i).patch.size then
        pure (-1)
      else
        match breakpointFreeSlot breakpoints with
        | none => pure (-1)
        | some i => insertAt i address size temporary

def breakpointInsert (address size : ℕ) : Table ℤ := breakpointInsertInternal address size false

def breakpointInsertStepTargetSized (address size currentPc : ℕ) : Table ℤ :=
  if size ≠ 2 ∧ size ≠ 4 then pure (-1)
  else if size = 4 ∧ address % 4 ≠ 0 then pure (-1)
  else
    let address := if size = 2 then clearBit0 address else address - address % 4
    if address = clearBit0 currentPc then pure (-1)
    else breakpointInsertInternal address size true

def breakpointInsertStepTarget (address currentPc : ℕ) : Table ℤ :=
  breakpointInsertStepTargetSized address (if address % 2 = 1 then 2 else 4) currentPc

def breakpointRemove (address : ℕ) : Table ℤ := do
  match breakpointFind (← Prog.read (·.breakpoints)) address with
  | none => pure 0
  | some i =>
    let result ← breakpointPatchRestore.lift (slotPart i)
    if result = .ok then
      Prog.modify (setTemporary i false)
      pure result.code
    else pure result.code

/-- The loop the three bulk removals share: every selected entry is attempted
and one failure makes the result `-1`. -/
def removeEach (select : Breakpoint → Bool) : List Index → Table ℤ
  | [] => pure 0
  | i :: rest => do
    let b ← Prog.read fun s => s.breakpoints i
    if select b then
      let result ← breakpointRemove b.patch.address
      let others ← removeEach select rest
      pure (if result < 0 then -1 else others)
    else removeEach select rest

def breakpointRemoveAll : Table ℤ :=
  removeEach (fun b => Occupied b) (finRange maxBreakpoints)

def breakpointRestorePending : Table ℤ :=
  removeEach (fun b => b.patch.state = .restorePending) (finRange maxBreakpoints)

def breakpointRemoveTemporary : Table ℤ :=
  removeEach (fun b => Occupied b ∧ b.temporary) (finRange maxBreakpoints)

def breakpointActiveCount (breakpoints : Index → Breakpoint) : ℕ :=
  (finRange maxBreakpoints).countP fun i =>
    breakpointPatchRequiresRestore (breakpoints i).patch

end VitaDebugger.BreakpointTable
