import VitaDebugger.BreakpointGuards
import VitaDebugger.MemoryTransaction
import VitaDebugger.RspHex

/-! The `M` write over live breakpoints of `uvdb.c`. Entries that meet the range
are listed for re-arming and removed, the bytes go through one transaction, and
the listed entries are installed again. What is unfinished stays recorded and is
retried by `memoryWriteRestorePending`. -/

namespace VitaDebugger.MemoryWrite
open AtomicProgram BreakpointPatch BreakpointTable
open MemoryTransaction RspHex

structure Rearm where
  address : ℕ
  size : ℕ
  temporary : Bool
  deriving DecidableEq

/-- `storage` is the capacity of the allocated block, if any, and `rearm` the
first `rearm_count` records. -/
structure WriteState where
  storage : Option ℕ
  transaction : Transaction
  rearm : List Rearm

structure LiveState where
  target : BreakpointState
  write : WriteState

abbrev Live := Prog LiveState IoReply

def tablePart : Prog.Part LiveState BreakpointState IoReply IoReply where
  view := (·.target)
  put s target := { s with target }
  answer := id
  view_put _ _ := rfl
  put_put _ _ _ := rfl
  put_view _ := rfl

def transactionPart : Prog.Part LiveState TransactionTarget IoReply IoReply where
  view s := ⟨s.write.transaction, s.target.mem⟩
  put s t := ⟨{ s.target with mem := t.mem }, { s.write with transaction := t.transaction }⟩
  answer := id
  view_put _ _ := rfl
  put_put _ _ _ := rfl
  put_view _ := rfl

def memoryWriteHasPending (w : WriteState) : Prop :=
  w.rearm ≠ [] ∨ memoryTransactionIsPending w.transaction

instance (w : WriteState) : Decidable (memoryWriteHasPending w) :=
  inferInstanceAs (Decidable (_ ∨ _))

def sizeMax : ℕ := 2 ^ 32 - 1

/-- The block is replaced only while nothing is pending; each kernel call is an
answer of the environment. -/
def memoryWriteStorageReserve (capacity : ℕ) : Live ℤ := do
  let write ← Prog.read (·.write)
  if capacity = 0 then pure 0
  else if memoryWriteHasPending write then pure (-1)
  else if ∃ c ∈ write.storage, capacity ≤ c then pure 0
  else if (sizeMax - 4095) / 2 < capacity then pure (-1)
  else
    let storageUid ← Prog.ask (·.status)
    if storageUid < 0 then pure (-1)
    else
      let base ← Prog.ask (·.status)
      if base < 0 then pure (-1)
      else
        let freed ← Prog.ask (·.status)
        if write.storage.isSome ∧ freed < 0 then pure (-1)
        else
          Prog.modify fun s => { s with write := { s.write with
            storage := some capacity, transaction := memoryTransactionInit (some []) capacity } }
          pure 0

def removeRearmEach : List Rearm → Table ℤ
  | [] => pure 0
  | rearm :: rest => do
    let breakpoints ← Prog.read (·.breakpoints)
    match breakpointFind breakpoints rearm.address with
    | none => removeRearmEach rest
    | some i =>
      let result ← breakpointRemove (breakpoints i).patch.address
      let others ← removeRearmEach rest
      pure (if result < 0 then -1 else others)

def memoryWriteRemoveRearmBreakpoints : Live ℤ := do
  let rearm ← Prog.read (·.write.rearm)
  (removeRearmEach rearm).lift tablePart

def rearmEach : List Rearm → Table ℤ
  | [] => pure 0
  | rearm :: rest => do
    let breakpoints ← Prog.read (·.breakpoints)
    match breakpointFind breakpoints rearm.address with
    | some i =>
      if (breakpoints i).patch.state ≠ .installed then pure (-1)
      else
        Prog.modify (setTemporary i rearm.temporary)
        rearmEach rest
    | none =>
      let result ← breakpointInsertInternal rearm.address rearm.size rearm.temporary
      if result < 0 then pure (-1) else rearmEach rest

def memoryWriteRearmBreakpoints : Live ℤ := do
  let rearm ← Prog.read (·.write.rearm)
  (rearmEach rearm).lift tablePart

def setRearm (rearm : List Rearm) (s : LiveState) : LiveState :=
  { s with write := { s.write with rearm } }

/-- The transaction's own retry; an idle transaction has nothing to restore. -/
def restoreTransaction : Live Bool := do
  let write ← Prog.read (·.write)
  if memoryTransactionIsPending write.transaction then
    let result ← memoryTransactionRestore.lift transactionPart
    pure (decide (result = .writeFailedRestored))
  else pure true

def memoryWriteRestorePending : Live ℤ := do
  let write ← Prog.read (·.write)
  if ¬memoryWriteHasPending write then pure 0
  else
    let removed ← memoryWriteRemoveRearmBreakpoints
    if removed < 0 then pure (-1)
    else
      let restored ← restoreTransaction
      if restored = false then pure (-1)
      else
        let rearmed ← memoryWriteRearmBreakpoints
        if rearmed < 0 then pure (-1)
        else
          Prog.modify (setRearm [])
          pure 0

def describe (b : Breakpoint) : Rearm := ⟨b.patch.address, b.patch.size, b.temporary⟩

def overlapping (breakpoints : Index → Breakpoint) (address size : ℕ) : List Rearm :=
  ((List.finRange maxBreakpoints).filter fun i => Occupied (breakpoints i) ∧
    rangesOverlap address size (breakpoints i).patch.address (breakpoints i).patch.size).map
      fun i => describe (breakpoints i)

def memoryWriteCaptureBreakpoints (address size : ℕ) : Live ℤ := do
  Prog.modify fun s => setRearm (overlapping s.target.breakpoints address size) s
  let removed ← memoryWriteRemoveRearmBreakpoints
  if removed < 0 then
    let _ ← memoryWriteRestorePending
    pure (-1)
  else pure 0

/-- `restore_pending() < 0 ? -2 : -1` -/
def abandonWrite : Live ℤ := do
  let result ← memoryWriteRestorePending
  pure (if result < 0 then -2 else -1)

/-- The part after the decoded bytes are ready. -/
def applyDecoded (decoded : Bytes) : Live ℤ := do
  let result ← (memoryTransactionApply decoded).lift transactionPart
  if result ≠ .ok then
    let write ← Prog.read (·.write)
    if memoryTransactionIsPending write.transaction then pure (-2)
    else
      let rearmed ← memoryWriteRearmBreakpoints
      if rearmed < 0 then pure (-2)
      else
        Prog.modify (setRearm [])
        pure (-1)
  else
    let rearmed ← memoryWriteRearmBreakpoints
    if rearmed < 0 then abandonWrite
    else
      let committed ← memoryTransactionCommit.lift transactionPart
      if committed ≠ .ok then abandonWrite
      else
        Prog.modify (setRearm [])
        pure 0

/-- `data` is the hexadecimal text the packet holds at the pointer, `none` for
a null pointer. -/
def memoryWriteLive (address : ℕ) (data : Option Bytes) (size : ℕ) : Live ℤ := do
  let write ← Prog.read (·.write)
  if (size ≠ 0 ∧ data = none) ∨ memoryWriteHasPending write then pure (-1)
  else
    let reserved ← memoryWriteStorageReserve size
    if reserved < 0 then pure (-1)
    else if size = 0 then pure 0
    else
      let captured ← memoryWriteCaptureBreakpoints address size
      if captured < 0 then pure (-2)
      else
        let prepared ← (memoryTransactionPrepare address size).lift transactionPart
        if prepared ≠ .ok then
          let rearmed ← memoryWriteRearmBreakpoints
          if rearmed = 0 then Prog.modify (setRearm [])
          let write ← Prog.read (·.write)
          pure (if memoryWriteHasPending write then -2 else -1)
        else
          match decodeHexBytes size ((data.getD []).take (size * 2)) with
          | none => abandonWrite
          | some decoded => applyDecoded decoded

end VitaDebugger.MemoryWrite
