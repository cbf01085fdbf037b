import VitaDebugger.AtomicProgram
import Mathlib.Data.Fintype.Pi
import Mathlib.Data.Fintype.Sum
import Mathlib.Tactic.DeriveFintype

/-! The register mutation transaction of `thread_mutation.c` and the gate of
`thread_gpr_gate.c` that drives it. A backend call may fail at any point; a write
reaches any subset of the registers, whatever it reports, and a snapshot that
succeeds is honest. Which transaction wrote and how one ended are ghosts. -/

namespace VitaDebugger.ThreadMutation
open AtomicProgram Function

abbrev errorUnsupported : ℤ := -17
abbrev errorInvalid : ℤ := -18
abbrev errorBusy : ℤ := -19
abbrev errorOwner : ℤ := -20
abbrev errorTarget : ℤ := -22
abbrev errorState : ℤ := -23
abbrev errorRestore : ℤ := -24
abbrev errorVerify : ℤ := -25

abbrev mutationAbiVersion : UInt32 := 1
abbrev coreBank : UInt32 := 1
abbrev vfpBank : UInt32 := 2
abbrev allowedBanks : UInt32 := coreBank ||| vfpBank
abbrev coreBankCount : ℕ := 2
abbrev coreRegisterCount : ℕ := 17
abbrev coreRegisterMask : UInt32 := 0x1ffff
abbrev cpsrWritableMask : UInt32 := 0xF80F0000
abbrev vfpDRegisterCount : ℕ := 32
abbrev vfpRegisterCount : ℕ := 33
abbrev vfpLayoutD32V1 : UInt32 := 1

/-- The fields of `vd_arm_registers`. -/
inductive CoreRegister where
  | r (i : Fin 13)
  | sp
  | lr
  | pc
  | cpsr
  | fpscr
  deriving DecidableEq, Fintype

/-- The register an index of the write request names. -/
def coreRegister (index : ℕ) : Option CoreRegister :=
  if h : index < 13 then some (.r ⟨index, h⟩)
  else if index = 13 then some .sp
  else if index = 14 then some .lr
  else if index = 15 then some .pc
  else if index = 16 then some .cpsr
  else none

abbrev CoreRegisters := Fin coreBankCount → CoreRegister → UInt32

structure VfpRegisters where
  layoutVersion : UInt32
  dRegisterCount : UInt32
  d : Fin vfpDRegisterCount → UInt64
  fpscrEntry : Fin 2 → UInt32

structure Identity where
  ownerPid : ℤ
  ownerThread : ℤ
  stopToken : UInt32
  targetUserThread : ℤ
  targetGuid : ℤ
  deriving DecidableEq

/-- Each flag says whether the callback pointer is set. -/
structure Backend where
  supportedBanks : UInt32
  coreWritableRegisterMask : UInt32
  retainTarget : Bool
  releaseTarget : Bool
  retainedTargetStatus : Bool
  snapshotCore : Bool
  writeCore : Bool
  snapshotVfp : Bool
  writeVfp : Bool

structure BeginRequest where
  structSize : UInt32
  abiVersion : UInt32
  stopToken : UInt32
  targetThread : ℤ
  bankMask : UInt32
  flags : UInt32

structure Handle where
  structSize : UInt32
  abiVersion : UInt32
  token : UInt32
  generation : UInt32
  stopToken : UInt32
  targetThread : ℤ
  bankMask : UInt32
  reserved : UInt32

structure WriteRequest where
  handle : Handle
  bank : UInt32
  registerBank : UInt32
  registerIndex : UInt32
  valueLow : UInt32
  valueHigh : UInt32
  flags : UInt32

inductive TransactionState where
  | empty
  | snapshotted
  | staged
  | restorePending
  deriving DecidableEq

structure MutationSession where
  nextSequence : UInt64
  token : UInt32
  generation : UInt32
  bankMask : UInt32
  stagedBanks : UInt32
  state : TransactionState
  targetRetained : Bool
  identity : Identity
  originalCore : CoreRegisters
  desiredCore : CoreRegisters
  originalVfp : VfpRegisters
  desiredVfp : VfpRegisters

def zeroVfp : VfpRegisters := ⟨0, 0, fun _ => 0, fun _ => 0⟩

def zeroSession : MutationSession where
  nextSequence := 0
  token := 0
  generation := 0
  bankMask := 0
  stagedBanks := 0
  state := .empty
  targetRetained := false
  identity := ⟨0, 0, 0, 0, 0⟩
  originalCore := fun _ _ => 0
  desiredCore := fun _ _ => 0
  originalVfp := zeroVfp
  desiredVfp := zeroVfp

def zeroHandle : Handle := ⟨0, 0, 0, 0, 0, 0, 0, 0⟩

/-- The gate around one transaction; `provider` says whether the pointer is set. -/
structure GprGate where
  handle : Handle
  provider : Bool
  registerIndex : UInt32
  registerBank : UInt32

/-- The registers of one thread. -/
structure ThreadFile where
  core : CoreRegisters
  d : Fin vfpDRegisterCount → UInt64
  fpscrEntry : Fin 2 → UInt32
  alive : Bool

/-- Why a transaction was cleared. -/
inductive Cause where
  | beginFailed
  | unwritten
  | committed
  | restored
  | gone
  deriving DecidableEq

/-- `base` is the target when its transaction was published, `written` whether
that transaction has issued a write and `ended` how the last one ended. -/
structure MutationState where
  session : MutationSession
  gate : GprGate
  threads : ℤ → ThreadFile
  base : ThreadFile
  written : Bool
  ended : Option Cause

/-- One answer of the backend: its result, the registers a write reaches, the
layout a VFP snapshot reports and the threads that exited meanwhile. -/
structure MutationReply where
  result : ℤ
  reachesCore : Fin coreBankCount → CoreRegister → Bool
  reachesD : Fin vfpDRegisterCount → Bool
  reachesFpscr : Fin 2 → Bool
  layoutVersion : UInt32
  dRegisterCount : UInt32
  exits : ℤ → Bool
  mask : UInt32

instance : Nonempty MutationReply :=
  ⟨⟨0, fun _ _ => false, fun _ => false, fun _ => false, 0, 0, fun _ => false, 0⟩⟩

abbrev Mutation := Prog MutationState MutationReply

def ThreadFile.exit (file : ThreadFile) (exits : Bool) : ThreadFile :=
  { file with alive := file.alive && !exits }

def MutationState.exitThreads (s : MutationState) (w : MutationReply) : MutationState :=
  { s with threads := fun guid => (s.threads guid).exit (w.exits guid) }

section Exit
variable (s : MutationState) (w : MutationReply) (guid : ℤ)

@[simp] theorem exitThreads_session : (s.exitThreads w).session = s.session := rfl

@[simp] theorem exitThreads_base : (s.exitThreads w).base = s.base := rfl

@[simp] theorem exitThreads_core :
    ((s.exitThreads w).threads guid).core = (s.threads guid).core := rfl

@[simp] theorem exitThreads_d : ((s.exitThreads w).threads guid).d = (s.threads guid).d := rfl

@[simp] theorem exitThreads_fpscrEntry :
    ((s.exitThreads w).threads guid).fpscrEntry = (s.threads guid).fpscrEntry := rfl

end Exit

/-- A callback whose result is all the session sees of it. -/
def callBackend : Mutation ℤ := Prog.perform fun s w => (w.result, s.exitThreads w)

/-- Zero is reported only for a target that is gone. -/
def callStatus (identity : Identity) : Mutation ℤ := Prog.perform fun s w =>
    let s := s.exitThreads w
    (if w.result = 0 ∧ (s.threads identity.targetGuid).alive then -1 else w.result, s)

def callSnapshotCore (guid : ℤ) : Mutation (ℤ × CoreRegisters) :=
  Prog.perform fun s w => ((w.result, (s.threads guid).core), s.exitThreads w)

def callSnapshotVfp (guid : ℤ) : Mutation (ℤ × VfpRegisters) :=
  Prog.perform fun s w => ((w.result, ⟨w.layoutVersion, w.dRegisterCount, (s.threads guid).d,
    (s.threads guid).fpscrEntry⟩), s.exitThreads w)

def ThreadFile.writeCore (file : ThreadFile) (registers : CoreRegisters) (w : MutationReply) :
    ThreadFile :=
  { file with core := fun bank register =>
      if w.reachesCore bank register then registers bank register else file.core bank register }

def ThreadFile.writeVfp (file : ThreadFile) (registers : VfpRegisters) (w : MutationReply) :
    ThreadFile :=
  { file with
    d := fun i => if w.reachesD i then registers.d i else file.d i
    fpscrEntry := fun i => if w.reachesFpscr i then registers.fpscrEntry i else file.fpscrEntry i }

def callWriteCore (guid : ℤ) (registers : CoreRegisters) : Mutation ℤ :=
  Prog.perform fun s w => (w.result, { s.exitThreads w with
    threads := update (s.exitThreads w).threads guid
      (((s.exitThreads w).threads guid).writeCore registers w)
    written := true })

def callWriteVfp (guid : ℤ) (registers : VfpRegisters) : Mutation ℤ :=
  Prog.perform fun s w => (w.result, { s.exitThreads w with
    threads := update (s.exitThreads w).threads guid
      (((s.exitThreads w).threads guid).writeVfp registers w)
    written := true })

def onSession (f : MutationSession → MutationSession) : Mutation Unit :=
  Prog.modify fun s => { s with session := f s.session }

def clearedSession (session : MutationSession) : MutationSession :=
  { zeroSession with nextSequence :=
      if session.nextSequence = 0 then 1 else session.nextSequence }

def releaseRetained (backend : Option Backend) : Mutation ℤ := do
  let session ← Prog.read (·.session)
  if session.targetRetained ∧ ∃ b ∈ backend, b.releaseTarget then callBackend else pure 0

def clearTransaction (cause : Cause) (backend : Option Backend) : Mutation Unit := do
  let _ ← releaseRetained backend
  Prog.modify fun s =>
    { s with session := clearedSession s.session, written := false, ended := some cause }

/-- The first sequence number whose low half is not zero. -/
def handleSequence (session : MutationSession) : UInt64 :=
  let sequence := if session.nextSequence = 0 then 1 else session.nextSequence
  if sequence.toUInt32 = 0 then sequence + 1 else sequence

def takeHandleSequence (session : MutationSession) : MutationSession :=
  let sequence := handleSequence session
  let generation := (sequence >>> 32).toUInt32 + 1
  { session with
    token := sequence.toUInt32
    generation := if generation = 0 then 1 else generation
    nextSequence := if sequence + 1 = 0 then 1 else sequence + 1 }

def identityValid (identity : Identity) : Bool :=
  decide (0 ≤ identity.ownerPid ∧ 0 ≤ identity.ownerThread ∧ identity.stopToken ≠ 0 ∧
    0 ≤ identity.targetUserThread ∧ 0 ≤ identity.targetGuid ∧
    identity.ownerThread ≠ identity.targetGuid)

def handleValid (session : MutationSession) (identity : Option Identity)
    (handle : Option Handle) : ℤ :=
  match identity, handle with
  | some identity, some handle =>
    if session.state = .empty then errorState
    else if handle.structSize ≠ 32 ∨ handle.abiVersion ≠ mutationAbiVersion ∨
        handle.reserved ≠ 0 ∨ handle.token = 0 ∨ handle.generation = 0 ∨
        handle.stopToken = 0 then errorInvalid
    else if session.identity ≠ identity ∨ handle.token ≠ session.token ∨
        handle.generation ≠ session.generation ∨
        handle.stopToken ≠ session.identity.stopToken ∨
        handle.targetThread ≠ session.identity.targetUserThread ∨
        handle.bankMask ≠ session.bankMask then errorOwner
    else 0
  | _, _ => errorState

def vfpLayoutValid (registers : VfpRegisters) : Bool :=
  decide (registers.layoutVersion = vfpLayoutD32V1 ∧
    registers.dRegisterCount = UInt32.ofNat vfpDRegisterCount)

def coreEqual (left right : CoreRegisters) : Bool :=
  decide (∀ bank register, left bank register = right bank register)

def vfpEqual (left right : VfpRegisters) : Bool := vfpLayoutValid left && vfpLayoutValid right &&
    decide ((∀ i, left.d i = right.d i) ∧ ∀ i, left.fpscrEntry i = right.fpscrEntry i)

/-- The first bank that holds a user context. -/
def selectedUserCoreBank (registers : CoreRegisters) : Option (Fin coreBankCount) :=
  (List.finRange coreBankCount).find? fun bank =>
    decide (registers bank .cpsr &&& 0x1f = 0x10 ∧ registers bank .pc ≠ 0 ∧ registers bank .sp ≠ 0)

def desiredCoreValid (original desired : CoreRegisters) : Bool :=
  decide (∀ bank, (original bank .cpsr ^^^ desired bank .cpsr) &&& ~~~cpsrWritableMask = 0 ∧
    original bank .fpscr = desired bank .fpscr ∧
    (if desired bank .cpsr &&& (1 : UInt32) <<< 5 ≠ 0 then desired bank .pc &&& 1 = 0
      else desired bank .pc &&& 3 = 0))

def vdThreadMutationSupportedBanks : Option Backend → UInt32
  | none => 0
  | some backend =>
    if (backend.retainTarget && backend.releaseTarget && backend.retainedTargetStatus) =
      false then 0
    else
      let core := if (backend.snapshotCore && backend.writeCore) = false ∨
          backend.coreWritableRegisterMask = 0 ∨
          backend.coreWritableRegisterMask &&& ~~~coreRegisterMask ≠ 0 then ~~~coreBank
        else ~~~0
      let vfp := if (backend.snapshotVfp && backend.writeVfp) = false then ~~~vfpBank else ~~~0
      backend.supportedBanks &&& allowedBanks &&& core &&& vfp

/-- Every failure of a begin clears what it had filled in. -/
def beginFails (backend : Option Backend) (code : ℤ) : Mutation (ℤ × Option Handle) := do
  clearTransaction .beginFailed backend
  pure (code, none)

def beginCore (guid : ℤ) : Mutation ℤ := do
  let (result, registers) ← callSnapshotCore guid
  if result < 0 then pure result
  else
    onSession fun session =>
      { session with originalCore := registers, desiredCore := registers }
    pure (if desiredCoreValid registers registers = false ∨ selectedUserCoreBank registers = none
      then errorTarget else 0)

def beginVfp (guid : ℤ) : Mutation ℤ := do
  let (result, registers) ← callSnapshotVfp guid
  if result < 0 then pure result
  else if vfpLayoutValid registers = false then
    onSession fun session => { session with originalVfp := registers }
    pure errorVerify
  else
    onSession fun session => { session with originalVfp := registers, desiredVfp := registers }
    pure 0

/-- `p` when the mask has the bank. -/
def forBank (mask bank : UInt32) (p : Mutation ℤ) : Mutation ℤ :=
  if mask &&& bank ≠ 0 then p else pure 0

/-- The step that makes the snapshot the base of a transaction. -/
def publish (identity : Identity) (bankMask : UInt32) : Mutation (ℤ × Option Handle) := do
  Prog.modify fun s => { s with
    session := { takeHandleSequence { s.session with bankMask, stagedBanks := 0 } with
      state := .snapshotted }
    base := s.threads identity.targetGuid
    written := false }
  let session ← Prog.read (·.session)
  pure (0, some ⟨32, mutationAbiVersion, session.token, session.generation, identity.stopToken,
    identity.targetUserThread, bankMask, 0⟩)

def beginRetained (identity : Identity) (bankMask : UInt32) (backend : Option Backend) :
    Mutation (ℤ × Option Handle) := do
  let retained ← callBackend
  if retained < 0 then beginFails backend retained
  else
    let status ← callStatus identity
    if status ≠ 1 then beginFails backend errorTarget
    else
      let core ← forBank bankMask coreBank (beginCore identity.targetGuid)
      if core < 0 then beginFails backend core
      else
        let vfp ← forBank bankMask vfpBank (beginVfp identity.targetGuid)
        if vfp < 0 then beginFails backend vfp
        else publish identity bankMask

/-- A missing argument stands for a null pointer, `storage` for the caller's
place for the handle. -/
def vdThreadMutationBegin (identity : Option Identity) (request : Option BeginRequest)
    (backend : Option Backend) (storage : Bool) : Mutation (ℤ × Option Handle) := do
  let session ← Prog.read (·.session)
  match identity, request with
  | some identity, some request =>
    if identityValid identity = false ∨ storage = false ∨ request.structSize ≠ 24 ∨
        request.abiVersion ≠ mutationAbiVersion ∨ request.stopToken ≠ identity.stopToken ∨
        request.targetThread ≠ identity.targetUserThread ∨
        (request.bankMask ≠ coreBank ∧ request.bankMask ≠ vfpBank) ∨
        request.bankMask &&& ~~~allowedBanks ≠ 0 ∨ request.flags ≠ 0 then pure (errorInvalid, none)
    else if session.state ≠ .empty then pure (errorBusy, none)
    else if request.bankMask &&& vdThreadMutationSupportedBanks backend ≠ request.bankMask then
      pure (errorUnsupported, none)
    else
      onSession fun session => { session with identity, targetRetained := true }
      beginRetained identity request.bankMask backend
  | _, _ => pure (errorInvalid, none)

/-- A snapshot of the core registers compared with what they should be. -/
def verifyCore (guid : ℤ) (expected : CoreRegisters) : Mutation ℤ := do
  let (result, actual) ← callSnapshotCore guid
  pure (if result < 0 then result else if coreEqual actual expected = false then errorVerify
    else 0)

def verifyVfp (guid : ℤ) (expected : VfpRegisters) : Mutation ℤ := do
  let (result, actual) ← callSnapshotVfp guid
  pure (if result < 0 then result else if vfpEqual actual expected = false then errorVerify
    else 0)

/-- `first_error` after one more result. -/
def firstError (error result : ℤ) : ℤ := if result < 0 ∧ error = 0 then result else error

/-- The four steps on the target and the first error among them. -/
def restoreBanks (session : MutationSession) : Mutation ℤ := do
  let guid := session.identity.targetGuid
  let wroteVfp ← forBank session.stagedBanks vfpBank (callWriteVfp guid session.originalVfp)
  let wroteCore ← forBank session.stagedBanks coreBank (callWriteCore guid session.originalCore)
  let core ← forBank session.stagedBanks coreBank (verifyCore guid session.originalCore)
  let vfp ← forBank session.stagedBanks vfpBank (verifyVfp guid session.originalVfp)
  pure (firstError (firstError (firstError (firstError 0 wroteVfp) wroteCore) core) vfp)

def restoreExact (backend : Option Backend) : Mutation ℤ := do
  onSession fun session => { session with state := .restorePending }
  let session ← Prog.read (·.session)
  if session.targetRetained = false ∨ ¬∃ b ∈ backend, b.retainedTargetStatus then
    pure errorRestore
  else
    let status ← callStatus session.identity
    if status ≠ 1 then pure errorRestore
    else if vdThreadMutationSupportedBanks backend &&& session.stagedBanks ≠
      session.stagedBanks then
      pure errorRestore
    else
      let error ← restoreBanks session
      if error < 0 then pure errorRestore
      else
        clearTransaction .restored backend
        pure 0

def rollbackAfterError (backend : Option Backend) (operationError : ℤ) : Mutation ℤ := do
  let restored ← restoreExact backend
  pure (if restored < 0 then errorRestore else operationError)

/-- The checks of a core write and the registers it asks for. -/
def stageCore (session : MutationSession) (request : WriteRequest) (writableMask : UInt32) :
    Except ℤ CoreRegisters :=
  if request.valueHigh ≠ 0 ∨ coreBankCount ≤ request.registerBank.toNat ∨
      coreRegisterCount ≤ request.registerIndex.toNat then .error errorInvalid
  else if writableMask &&& (1 : UInt32) <<< request.registerIndex = 0 then .error errorUnsupported
  else
    match selectedUserCoreBank session.originalCore, coreRegister request.registerIndex.toNat with
    | some bank, some register =>
      if request.registerBank.toNat ≠ bank then .error errorTarget
      else if register = .cpsr ∧ (session.originalCore bank .cpsr ^^^ request.valueLow) &&&
          ~~~cpsrWritableMask ≠ 0 then .error errorInvalid
      else
        let desired := update session.desiredCore bank
          (update (session.desiredCore bank) register request.valueLow)
        if desiredCoreValid session.originalCore desired = false then .error errorInvalid
        else .ok desired
    | none, _ => .error errorTarget
    | _, none => .error errorInvalid

def stageVfp (session : MutationSession) (request : WriteRequest) : Except ℤ VfpRegisters :=
  if request.registerBank ≠ 0 ∨ vfpRegisterCount ≤ request.registerIndex.toNat then
    .error errorInvalid
  else if h : request.registerIndex.toNat < vfpDRegisterCount then
    let value := request.valueHigh.toUInt64 <<< 32 ||| request.valueLow.toUInt64
    .ok { session.desiredVfp with
      d := update session.desiredVfp.d ⟨request.registerIndex.toNat, h⟩ value }
  else if request.valueHigh ≠ 0 then .error errorInvalid
  else .ok { session.desiredVfp with
    fpscrEntry := update session.desiredVfp.fpscrEntry 0 request.valueLow }

/-- The desired registers after the request, or the refusal. -/
def stageDesired (session : MutationSession) (request : WriteRequest) (writableMask : UInt32) :
    Except ℤ MutationSession :=
  if request.bank = coreBank then
    (stageCore session request writableMask).map fun desiredCore => { session with desiredCore }
  else (stageVfp session request).map fun desiredVfp => { session with desiredVfp }

def writeDesired (guid : ℤ) (bank : UInt32) (session : MutationSession) : Mutation ℤ :=
  if bank = coreBank then callWriteCore guid session.desiredCore
  else callWriteVfp guid session.desiredVfp

def verifyDesired (guid : ℤ) (bank : UInt32) (session : MutationSession) : Mutation ℤ :=
  if bank = coreBank then verifyCore guid session.desiredCore
  else verifyVfp guid session.desiredVfp

/-- The write of a staged request, with the obligation published before it. -/
def stageWrite (guid : ℤ) (bank : UInt32) (session : MutationSession) (backend : Option Backend) :
    Mutation ℤ := do
  onSession fun _ =>
    { session with stagedBanks := session.stagedBanks ||| bank, state := .restorePending }
  let wrote ← writeDesired guid bank session
  if wrote < 0 then rollbackAfterError backend wrote
  else
    let verified ← verifyDesired guid bank session
    if verified < 0 then rollbackAfterError backend verified
    else
      onSession fun session => { session with state := .staged }
      pure 0

def vdThreadMutationStage (identity : Option Identity) (request : Option WriteRequest)
    (backend : Option Backend) : Mutation ℤ := do
  let session ← Prog.read (·.session)
  match request with
  | none => pure errorInvalid
  | some request =>
    let result := handleValid session identity (some request.handle)
    if result < 0 then pure result
    else if session.state ≠ .snapshotted ∧ session.state ≠ .staged then pure errorState
    else if request.flags ≠ 0 ∨ (request.bank ≠ coreBank ∧ request.bank ≠ vfpBank) ∨
        session.bankMask &&& request.bank = 0 then pure errorInvalid
    else if vdThreadMutationSupportedBanks backend &&& request.bank = 0 then pure errorUnsupported
    else if session.targetRetained = false then pure errorTarget
    else
      let status ← callStatus session.identity
      if status ≠ 1 then pure errorTarget
      else
        match stageDesired session request ((backend.map (·.coreWritableRegisterMask)).getD 0) with
        | .error code => pure code
        | .ok staged => stageWrite session.identity.targetGuid request.bank staged backend

def vdThreadMutationCommit (identity : Option Identity) (handle : Option Handle)
    (backend : Option Backend) : Mutation ℤ := do
  let session ← Prog.read (·.session)
  let result := handleValid session identity handle
  if result < 0 then pure result
  else if session.state ≠ .staged ∨ session.stagedBanks ≠ session.bankMask ∨
      vdThreadMutationSupportedBanks backend &&& session.bankMask ≠ session.bankMask then
    pure errorState
  else if session.targetRetained = false then pure errorTarget
  else
    let guid := session.identity.targetGuid
    let status ← callStatus session.identity
    if status ≠ 1 then pure errorTarget
    else
      let core ← forBank session.stagedBanks coreBank (verifyCore guid session.desiredCore)
      if core < 0 then rollbackAfterError backend core
      else
        let vfp ← forBank session.stagedBanks vfpBank (verifyVfp guid session.desiredVfp)
        if vfp < 0 then rollbackAfterError backend vfp
        else
          clearTransaction .committed backend
          pure 0

def vdThreadMutationRestore (identity : Option Identity) (handle : Option Handle)
    (backend : Option Backend) : Mutation ℤ := do
  let session ← Prog.read (·.session)
  let result := handleValid session identity handle
  if result < 0 then pure result
  else if session.state = .snapshotted then
    clearTransaction .unwritten backend
    pure 0
  else if session.state ≠ .staged ∧ session.state ≠ .restorePending then pure errorState
  else restoreExact backend

def vdThreadMutationCleanup (ownerPid : ℤ) (stopToken : UInt32) (backend : Option Backend) :
    Mutation ℤ := do
  let session ← Prog.read (·.session)
  if session.state = .empty then pure 0
  else if ownerPid ≠ session.identity.ownerPid ∨ stopToken ≠ session.identity.stopToken then
    pure errorOwner
  else if session.state = .snapshotted then
    clearTransaction .unwritten backend
    pure 0
  else if session.targetRetained = false ∨ ¬∃ b ∈ backend, b.retainedTargetStatus then
    pure errorRestore
  else
    let exactTargetStatus ← callStatus session.identity
    if exactTargetStatus = 0 then
      clearTransaction .gone backend
      pure 0
    else if exactTargetStatus ≠ 1 then pure errorRestore
    else restoreExact backend

def gateRegisterAllowed (registerIndex : UInt32) : Bool :=
  decide (registerIndex = 4 ∨ registerIndex = 5)

def onGate (f : GprGate → GprGate) : Mutation Unit :=
  Prog.modify fun s => { s with gate := f s.gate }

def clearGateMetadata : Mutation Unit := onGate fun _ => ⟨zeroHandle, false, 0, 0⟩

/-- The provider's last release error, read through the gate's pointer. -/
def lastReleaseError (provider : Bool) : Mutation ℤ :=
  if provider then callBackend else pure 0

def finishOperation (operationResult : ℤ) : Mutation ℤ := do
  let s ← Prog.read id
  if s.session.state ≠ .empty then pure operationResult
  else
    let releaseResult ← lastReleaseError s.gate.provider
    clearGateMetadata
    pure (if releaseResult < 0 then releaseResult else operationResult)

/-- The register bank the gate writes. -/
def vdThreadMutationGetSelectedUserCoreBank (session : MutationSession) : Except ℤ UInt32 :=
  if session.state = .empty ∨ session.bankMask &&& coreBank = 0 then .error errorState
  else
    match selectedUserCoreBank session.originalCore with
    | none => .error errorTarget
    | some bank => .ok (UInt32.ofNat bank)

/-- The part of a gate begin after the transaction has begun. -/
def gateBegun (identity : Identity) (registerIndex : UInt32) (handle : Handle)
    (backend : Option Backend) : Mutation ℤ := do
  onGate fun gate => { gate with handle, provider := true, registerIndex }
  let session ← Prog.read (·.session)
  match vdThreadMutationGetSelectedUserCoreBank session with
  | .ok registerBank =>
    onGate fun gate => { gate with registerBank }
    pure 0
  | .error code =>
    let restoreResult ← vdThreadMutationRestore (some identity) (some handle) backend
    let cleanupResult ← finishOperation restoreResult
    pure (if cleanupResult < 0 then cleanupResult else code)

/-- `provider` says whether the pointer is set. The provider's readiness and core
contract are answers; `backend` is the table it holds at the call. -/
def vdThreadGprGateBegin (compiled : Bool) (identity : Option Identity) (registerIndex : UInt32)
    (provider : Bool) (backend : Backend) : Mutation ℤ :=
  if compiled = false then pure errorUnsupported
  else do
    let s ← Prog.read id
    match identity with
    | none => pure errorInvalid
    | some identity =>
      if provider = false ∨ gateRegisterAllowed registerIndex = false then pure errorInvalid
      else if s.session.state ≠ .empty ∨ s.gate.provider then pure errorBusy
      else
        let ready ← callBackend
        if ready = 0 then pure errorUnsupported
        else
          let (contract, mask) ← Prog.ask fun w => (w.result, w.mask)
          if contract < 0 then pure contract
          else if mask &&& (1 : UInt32) <<< registerIndex = 0 then pure errorUnsupported
          else
            let (begun, handle) ← vdThreadMutationBegin (some identity)
              (some
                ⟨24, mutationAbiVersion, identity.stopToken, identity.targetUserThread, coreBank,
                0⟩) (some backend) true
            if begun < 0 then pure begun
            else gateBegun identity registerIndex (handle.getD s.gate.handle) (some backend)

def vdThreadGprGateApply (compiled : Bool) (identity : Option Identity) (value : UInt32)
    (backend : Backend) : Mutation ℤ :=
  if compiled = false then pure errorUnsupported
  else do
    let s ← Prog.read id
    if identity = none ∨ s.gate.provider = false ∨ s.session.state = .empty then pure errorState
    else if s.session.state ≠ .snapshotted then pure errorState
    else
      let result ← vdThreadMutationStage identity
        (some ⟨s.gate.handle, coreBank, s.gate.registerBank, s.gate.registerIndex, value, 0, 0⟩)
        (some backend)
      finishOperation result

def vdThreadGprGateRestore (compiled : Bool) (identity : Option Identity) (backend : Backend) :
    Mutation ℤ :=
  if compiled = false then pure errorUnsupported
  else do
    let s ← Prog.read id
    if identity = none ∨ s.gate.provider = false ∨ s.session.state = .empty then pure errorState
    else
      let result ← vdThreadMutationRestore identity (some s.gate.handle) (some backend)
      finishOperation result

def vdThreadGprGateCleanup (compiled : Bool) (ownerPid : ℤ) (stopToken : UInt32)
    (backend : Backend) : Mutation ℤ :=
  if compiled = false then pure errorUnsupported
  else do
    let s ← Prog.read id
    if s.session.state = .empty then
      clearGateMetadata
      pure 0
    else if s.gate.provider = false then pure errorRestore
    else
      let result ← vdThreadMutationCleanup ownerPid stopToken (some backend)
      finishOperation result

/-- The calls on one session. `outside` is what the rest of the system does to the
threads; it is possible only while no transaction is open. -/
inductive MutationCall where
  | begin (identity : Option Identity) (request : Option BeginRequest)
      (backend : Option Backend) (storage : Bool)
  | stage (identity : Option Identity) (request : Option WriteRequest) (backend : Option Backend)
  | commit (identity : Option Identity) (handle : Option Handle) (backend : Option Backend)
  | restore (identity : Option Identity) (handle : Option Handle) (backend : Option Backend)
  | cleanup (ownerPid : ℤ) (stopToken : UInt32) (backend : Option Backend)
  | gateBegin (compiled : Bool) (identity : Option Identity) (registerIndex : UInt32)
      (provider : Bool) (backend : Backend)
  | gateApply (compiled : Bool) (identity : Option Identity) (value : UInt32) (backend : Backend)
  | gateRestore (compiled : Bool) (identity : Option Identity) (backend : Backend)
  | gateCleanup (compiled : Bool) (ownerPid : ℤ) (stopToken : UInt32) (backend : Backend)
  | outside (threads : ℤ → ThreadFile)

namespace MutationCall

def backend : MutationCall → Option Backend
  | .begin _ _ backend _ => backend
  | .stage _ _ backend => backend
  | .commit _ _ backend => backend
  | .restore _ _ backend => backend
  | .cleanup _ _ backend => backend
  | .gateBegin _ _ _ _ backend => some backend
  | .gateApply _ _ _ backend => some backend
  | .gateRestore _ _ backend => some backend
  | .gateCleanup _ _ _ backend => some backend
  | .outside _ => none

def Enabled (s : MutationState) : MutationCall → Prop
  | .outside _ => s.session.state = .empty
  | _ => True

/-- The calls of the gate, and the system around it. -/
def ThroughGate : MutationCall → Prop
  | .gateBegin .. | .gateApply .. | .gateRestore .. | .gateCleanup .. | .outside _ => True
  | _ => False

def program : MutationCall → Mutation Unit
  | .begin identity request backend storage => do
    let _ ← vdThreadMutationBegin identity request backend storage
  | .stage identity request backend => do
    let _ ← vdThreadMutationStage identity request backend
  | .commit identity handle backend => do
    let _ ← vdThreadMutationCommit identity handle backend
  | .restore identity handle backend => do
    let _ ← vdThreadMutationRestore identity handle backend
  | .cleanup ownerPid stopToken backend => do
    let _ ← vdThreadMutationCleanup ownerPid stopToken backend
  | .gateBegin compiled identity registerIndex provider backend => do
    let _ ← vdThreadGprGateBegin compiled identity registerIndex provider backend
  | .gateApply compiled identity value backend => do
    let _ ← vdThreadGprGateApply compiled identity value backend
  | .gateRestore compiled identity backend => do
    let _ ← vdThreadGprGateRestore compiled identity backend
  | .gateCleanup compiled ownerPid stopToken backend => do
    let _ ← vdThreadGprGateCleanup compiled ownerPid stopToken backend
  | .outside threads => Prog.modify fun s => { s with threads }

end MutationCall

/-- An initialised session and gate over the threads of the system. -/
def booted (threads : ℤ → ThreadFile) : MutationState where
  session := { zeroSession with nextSequence := 1 }
  gate := ⟨zeroHandle, false, 0, 0⟩
  threads := threads
  base := threads 0
  written := false
  ended := none

end VitaDebugger.ThreadMutation
