import Mathlib.Data.UInt
import VitaDebugger.ThreadMutation

/-! The kernel plugin's stop session: one record under a spin lock, which owns the
threads it suspended until its lease ends. A region between `lock_sessions` and
`unlock_sessions` is one action of the calling thread; whatever lies outside a
region interleaves freely. Every answer of the kernel and of the hardware debug
engine is arbitrary. -/

namespace VitaDebugger.KernelStop
open AtomicProgram ThreadMutation Prog

abbrev maxThreads : ℕ := 64
abbrev errorHwBusy : ℤ := -10
abbrev errorHwStopRequired : ℤ := -12
abbrev errorHwInvalid : ℤ := -13
abbrev errorHwRestore : ℤ := -15
abbrev errorMutationStopRequired : ℤ := -21

def validLease (leaseMs : UInt32) : Bool := 250 ≤ leaseMs && leaseMs ≤ 5000

structure StopSession where
  pid : ℤ
  token : UInt32
  controllerThread : ℤ
  exemptThread : ℤ
  suspended : List ℤ
  deadlineUs : UInt64
  active : Bool
  hardwareMutation : Bool
  hardwareRestorePending : Bool
  hardwareToken : UInt32

/-- A thread the session suspended, what the query just before had answered and the
suspending call it happened in. -/
structure Suspended where
  thread : ℤ
  state : ℤ
  round : ℕ

/-- An admitted hardware update whose result is not recorded yet. -/
structure PendingUpdate where
  pid : ℤ
  stopToken : UInt32

/-- The shared variables. The fields after `nextToken` are history: what the session
suspended, which threads it found suspended when it began, the updates in flight by
caller, and whether `module_stop` has cleared the hardware flags. -/
structure KernelCore where
  session : StopSession
  mutation : MutationState
  nextToken : UInt32
  owned : List Suspended
  found : List ℤ
  round : ℕ
  updates : ℕ → Option PendingUpdate
  unloading : Bool

inductive Agent where
  | beginFailed
  | beginUncopied (pid : ℤ) (token : UInt32)
  | renewRollback (pid : ℤ) (token : UInt32)
  | endStop (pid : ℤ) (token : UInt32)
  | updateDone (pid : ℤ) (stopToken : UInt32) (now : UInt64)
  | released (pid : ℤ) (now : UInt64)
  | watchdog (now : UInt64)
  | moduleStop

/-- One resume issued to the kernel, with the variables as they were then. -/
structure Resume where
  agent : Agent
  thread : ℤ
  core : KernelCore

structure KernelState where
  core : KernelCore
  resumes : List Resume

/-- One answer of the kernel. -/
structure KernelReply where
  status : ℤ
  total : ℤ
  threads : List ℤ
  time : UInt64
  taken : Bool
  mutation : MutationReply

instance : Nonempty KernelReply :=
  (inferInstance : Nonempty MutationReply).elim fun reply => ⟨⟨0, 0, [], 0, false, reply⟩⟩

/-- What runs under the session lock. -/
abbrev Region := Prog KernelState KernelReply

/-- What a thread runs; one of its actions is a kernel call or a whole region. -/
abbrev Syscall := Prog KernelState (ℕ → KernelReply)

structure Caller where
  pid : ℤ
  thread : ℤ

def KernelCore.mutationActive (core : KernelCore) : Bool := core.mutation.session.state ≠ .empty

def StopSession.isFor (session : StopSession) (pid : ℤ) (token : UInt32) : Bool :=
  session.active && session.pid = pid && session.token = token

def onCore (f : KernelCore → KernelCore) : Region Unit :=
  Prog.modify fun s => { s with core := f s.core }

def onStopSession (f : StopSession → StopSession) : Region Unit :=
  onCore fun core => { core with session := f core.session }

def mutationPart : Part KernelState MutationState KernelReply MutationReply where
  view s := s.core.mutation
  put s mutation := { s with core := { s.core with mutation } }
  answer := KernelReply.mutation
  view_put _ _ := rfl
  put_put _ _ _ := rfl
  put_view _ := rfl

/-! Kernel calls inside a region. -/

def getThreadIdList : Region (ℤ × List ℤ) := Prog.ask fun w => (w.total, w.threads)

def isThreadDebugSuspended : Region ℤ := Prog.ask (·.status)

def debugSuspendThread : Region ℤ := Prog.ask (·.status)

def getUserThreadId : Region ℤ := Prog.ask (·.status)

def getSystemTimeWide : Region UInt64 := Prog.ask (·.time)

/-- `ksceKernelDebugResumeThread`, or `ksceKernelChangeThreadSuspendStatus` after it. -/
def issueResume (agent : Agent) (thread : ℤ) : Region ℤ :=
  Prog.perform fun s w => (w.status, { s with resumes := ⟨agent, thread, s.core⟩ :: s.resumes })

def takeThread (thread state : ℤ) : Region Unit := onCore fun core =>
  { core with
    session := { core.session with suspended := core.session.suspended ++ [thread] }
    owned := ⟨thread, state, core.round⟩ :: core.owned }

def completeList (listing : ℤ × List ℤ) : Bool :=
  0 ≤ listing.1 && listing.1 ≤ maxThreads && listing.2.length = listing.1

/-- The error of a thread that is still there and still suspended, if it is. -/
def resumeOne (agent : Agent) (present : Bool) (thread : ℤ) : Region (Option ℤ) := do
  let result ← issueResume agent thread
  if 0 ≤ result then pure none
  else do
    let recovery ← issueResume agent thread
    if 0 ≤ recovery then pure none
    else do
      let state ← isThreadDebugSuspended
      pure (if present ∧ state ≠ 0 then some result else none)

/-- The threads to retry, in the order tried, and the error of the first of them. -/
def resumeEach (agent : Agent) (present : ℤ → Bool) : List ℤ → Region (List ℤ × ℤ)
  | [] => pure ([], 0)
  | thread :: rest => do
    let failed ← resumeOne agent (present thread) thread
    let after ← resumeEach agent present rest
    pure (match failed with
      | some code => (thread :: after.1, code)
      | none => after)

def StopSession.cleared (session : StopSession) : StopSession := { session with
    active := false, pid := -1, token := 0, controllerThread := -1, exemptThread := -1
    suspended := [], deadlineUs := 0, hardwareMutation := false
    hardwareRestorePending := false, hardwareToken := 0 }

def StopSession.retrying (session : StopSession) (retry : List ℤ) : StopSession :=
  { session with suspended := retry, active := true, deadlineUs := 0 }

variable (backend : Backend)

def cleanupMutation (session : StopSession) : Region ℤ := do
  let active ← Prog.read (·.core.mutationActive)
  if active then
    (vdThreadMutationCleanup session.pid session.token (some backend)).lift mutationPart
  else pure 0

def resumeSessionLocked (agent : Agent) : Region ℤ := do
  let session ← Prog.read (·.core.session)
  if session.hardwareMutation ∨ session.hardwareRestorePending then pure errorHwBusy
  else do
    let listing ← getThreadIdList
    let mutationResult ← cleanupMutation backend session
    if mutationResult < 0 then do
      onStopSession fun session => { session with deadlineUs := 0 }
      pure mutationResult
    else do
      let present := fun thread => !completeList listing || listing.2.contains thread
      let retry ← resumeEach agent present session.suspended.reverse
      onStopSession fun session =>
        if retry.1 = [] then session.cleared else session.retrying retry.1
      pure retry.2

def resumeWhen (agent : Agent) (due : Bool) : Region ℤ :=
  if due then resumeSessionLocked backend agent else pure 0

/-! Begin, renew and end. -/

structure StopResult where
  token : UInt32
  suspendedCount : ℕ
  alreadySuspendedCount : ℕ
  failedThread : ℤ
  failureCode : ℤ

def failedResult (code : ℤ) : StopResult := ⟨0, 0, 0, -1, code⟩

/-- The number of threads found suspended, and the thread that could not be
suspended with its error. -/
def suspendEach (controller exempt : ℤ) : List ℤ → Region (ℕ × Option (ℤ × ℤ))
  | [] => pure (0, none)
  | thread :: rest =>
    if thread = controller ∨ thread = exempt then suspendEach controller exempt rest
    else do
      let state ← isThreadDebugSuspended
      if 0 < state then do
        onCore fun core => { core with found := thread :: core.found }
        let after ← suspendEach controller exempt rest
        pure (after.1 + 1, after.2)
      else do
        let result ← debugSuspendThread
        if result < 0 then pure (0, some (thread, result))
        else do
          takeThread thread state
          suspendEach controller exempt rest

def KernelCore.opened (core : KernelCore) (caller : Caller) (exempt : ℤ) : KernelCore := { core with
    session := { core.session with
      pid := caller.pid, controllerThread := caller.thread, exemptThread := exempt
      suspended := [], hardwareMutation := false, hardwareRestorePending := false
      hardwareToken := 0 }
    owned := [], found := [], round := core.round + 1 }

/-- The token is never 0, also when the counter wraps. -/
def KernelCore.published (core : KernelCore) (now : UInt64) (leaseMs : UInt32) : KernelCore :=
  let token := if core.nextToken = 0 then 1 else core.nextToken
  { core with
    nextToken := token + 1
    session := { core.session with
      token := token, deadlineUs := now + leaseMs.toUInt64 * 1000, active := true } }

variable (caller : Caller)

def beginLocked (exempt : ℤ) (leaseMs : UInt32) (threads : List ℤ) : Region StopResult := do
  let core ← Prog.read (·.core)
  if core.session.active ∨ core.mutationActive then pure (failedResult (-2))
  else do
    onCore (·.opened caller exempt)
    let listed ← suspendEach caller.thread exempt threads
    match listed.2 with
    | some (_, code) => do
      let failedThread ← getUserThreadId
      let _ ← resumeSessionLocked backend .beginFailed
      pure ⟨0, 0, listed.1, failedThread, code⟩
    | none => do
      let now ← getSystemTimeWide
      onCore (·.published now leaseMs)
      let session ← Prog.read (·.core.session)
      pure ⟨session.token, session.suspended.length, listed.1, -1, 0⟩

/-- The session ends where `pid` and `token` name it. -/
def endLocked (agent : Agent) (pid : ℤ) (token : UInt32) : Region (ℤ × ℕ) := do
  let session ← Prog.read (·.core.session)
  if session.isFor pid token then do
    let result ← resumeSessionLocked backend agent
    pure (result, session.suspended.length)
  else pure (-5, 0)

/-- The threads of the list that are still listed and still suspended. -/
def retainEach (listed : List ℤ) : List ℤ → Region (List ℤ)
  | [] => pure []
  | thread :: rest =>
    if thread ∈ listed then do
      let state ← isThreadDebugSuspended
      let retained ← retainEach listed rest
      pure (if 0 < state then thread :: retained else retained)
    else retainEach listed rest

/-- Suspends the listed threads the session does not hold yet; the result is that of
the last suspension, or the error that stopped the loop. -/
def reconcileEach (controller exempt : ℤ) : ℤ → List ℤ → Region ℤ
  | result, [] => pure result
  | result, thread :: rest =>
    if thread = controller ∨ thread = exempt then reconcileEach controller exempt result rest
    else do
      let suspended ← Prog.read (·.core.session.suspended)
      if thread ∈ suspended then reconcileEach controller exempt result rest
      else do
        let state ← isThreadDebugSuspended
        if 0 < state then reconcileEach controller exempt result rest
        else if maxThreads ≤ suspended.length then pure (-4)
        else do
          let result ← debugSuspendThread
          if result < 0 then pure result
          else do
            takeThread thread state
            reconcileEach controller exempt result rest

/-- Releases what this renewal appended after the first `original` threads. -/
def rollback (agent : Agent) (original : ℕ) : Region Unit := do
  let suspended ← Prog.read (·.core.session.suspended)
  let kept ← resumeEach agent (fun _ => true) (suspended.drop original)
  onStopSession fun session => { session with suspended := suspended.take original ++ kept.1 }

def renewListed (pid : ℤ) (token leaseMs : UInt32) (session : StopSession)
    (threads : List ℤ) : Region ℤ := do
  let retained ← retainEach threads session.suspended
  onCore fun core =>
    { core with session := { core.session with suspended := retained }, round := core.round + 1 }
  let result ← reconcileEach session.controllerThread session.exemptThread 0 threads
  if result < 0 then do
    rollback (.renewRollback pid token) retained.length
    pure result
  else do
    let now ← getSystemTimeWide
    onStopSession fun session => { session with deadlineUs := now + leaseMs.toUInt64 * 1000 }
    pure result

def listError (total : ℤ) : ℤ := if total < 0 then total else -4

def renewLocked (pid : ℤ) (token leaseMs : UInt32) : Region ℤ := do
  let session ← Prog.read (·.core.session)
  if session.isFor pid token then do
    let listing ← getThreadIdList
    if listing.1 < 0 ∨ maxThreads < listing.1 then pure (listError listing.1)
    else renewListed pid token leaseMs session listing.2
  else pure (-5)

/-! Hardware updates and the watchdog. -/

def allSuspended (controller exempt : ℤ) : List ℤ → Region Bool
  | [] => pure true
  | thread :: rest =>
    if thread = controller ∨ thread = exempt then allSuspended controller exempt rest
    else do
      let state ← isThreadDebugSuspended
      if state ≤ 0 then pure false else allSuspended controller exempt rest

def stopSessionIsCurrentLocked (stopToken : UInt32) (now : UInt64)
    (requireMutationIdle : Bool) : Region Bool := do
  let core ← Prog.read (·.core)
  if ¬core.session.isFor caller.pid stopToken ∨ core.session.deadlineUs ≤ now ∨
      core.session.hardwareMutation ∨ core.session.hardwareRestorePending ∨
      (requireMutationIdle ∧ core.mutationActive) ∨ 0 ≤ core.session.exemptThread ∨
      core.session.controllerThread ≠ caller.thread then pure false
  else do
    let listing ← getThreadIdList
    if completeList listing then
      allSuspended core.session.controllerThread core.session.exemptThread listing.2
    else pure false

def admitUpdate (me : ℕ) (caller : Caller) (token stopToken : UInt32) : Region Bool := do
  let now ← getSystemTimeWide
  let current ← stopSessionIsCurrentLocked caller stopToken now true
  if current then do
    onCore fun core =>
      { core with
        session := { core.session with
          hardwareMutation := true, hardwareRestorePending := false, hardwareToken := token }
        updates := Function.update core.updates me (some ⟨caller.pid, stopToken⟩) }
    pure true
  else pure false

def StopSession.updated (session : StopSession) (result : ℤ) : StopSession := { session with
    hardwareMutation := false
    hardwareRestorePending := result = errorHwRestore
    hardwareToken := if result = errorHwRestore then session.hardwareToken else 0 }

def recordUpdate (me : ℕ) (caller : Caller) (token stopToken : UInt32)
    (result : ℤ) (now : UInt64) : Region ℤ := do
  onCore fun core => { core with updates := Function.update core.updates me none }
  let session ← Prog.read (·.core.session)
  if session.isFor caller.pid stopToken ∧ session.hardwareMutation ∧
      session.hardwareToken = token then do
    onStopSession (·.updated result)
    resumeWhen backend (.updateDone caller.pid stopToken now)
      (result ≠ errorHwRestore ∧ session.deadlineUs ≤ now)
  else pure 0

def StopSession.restored (session : StopSession) : StopSession :=
  { session with hardwareRestorePending := false, hardwareToken := 0 }

def releaseLocked (pid : ℤ) (token : UInt32) (result : ℤ) (now : UInt64) : Region ℤ := do
  let session ← Prog.read (·.core.session)
  if session.active ∧ session.pid = pid ∧ session.hardwareRestorePending ∧
      session.hardwareToken = token then do
    onStopSession (·.restored)
    if session.deadlineUs ≤ now then resumeSessionLocked backend (.released pid now)
    else pure result
  else pure result

/-- The restore the watchdog has to retry: pid, stop token and hardware token. -/
def recoveryNeeded (session : StopSession) : Option (ℤ × UInt32 × UInt32) :=
  if session.active ∧ session.hardwareRestorePending ∧ 0 ≤ session.pid ∧ session.token ≠ 0 ∧
      session.hardwareToken ≠ 0 then
    some (session.pid, session.token, session.hardwareToken)
  else none

def StopSession.recovered (session : StopSession) (recovery : ℤ × UInt32 × UInt32) : StopSession :=
  if session.isFor recovery.1 recovery.2.1 ∧ session.hardwareRestorePending ∧
      session.hardwareToken = recovery.2.2 then session.restored
  else session

def watchdogLocked (recovered : Option (ℤ × UInt32 × UInt32)) (now : UInt64) : Region ℤ := do
  onStopSession fun session => recovered.elim session session.recovered
  let session ← Prog.read (·.core.session)
  resumeWhen backend (.watchdog now)
    (session.active ∧ ¬session.hardwareMutation ∧ ¬session.hardwareRestorePending ∧
      session.deadlineUs ≤ now)

def moduleStopLocked : Region ℤ := do
  onCore fun core =>
    { core with
      session := { core.session with
        hardwareMutation := false, hardwareRestorePending := false, hardwareToken := 0 }
      unloading := true }
  let core ← Prog.read (·.core)
  resumeWhen backend .moduleStop (core.session.active ∨ core.mutationActive)

/-! Register mutations of a stopped thread. -/

def matchSessionThread (suspended : List ℤ) (target : ℤ) : ℤ → List ℤ → Region ℤ
  | found, [] => pure found
  | found, candidate :: rest =>
    if candidate ∈ suspended then do
      let state ← isThreadDebugSuspended
      if state ≤ 0 then matchSessionThread suspended target found rest
      else do
        let user ← getUserThreadId
        if 0 ≤ user ∧ user = target then
          if 0 ≤ found then pure (-1) else matchSessionThread suspended target candidate rest
        else matchSessionThread suspended target found rest
    else matchSessionThread suspended target found rest

def findSessionThreadLocked (target : ℤ) : Region ℤ :=
  if target < 0 then pure (-1)
  else do
    let listing ← getThreadIdList
    if completeList listing then do
      let suspended ← Prog.read (·.core.session.suspended)
      matchSessionThread suspended target (-1) listing.2
    else pure (-1)

/-- A mutation call on the session's own target, or the error of the check that
refuses it. -/
def mutateLocked {α : Type} (caller : Caller) (stopToken : UInt32) (target : ℤ)
    (requireMutationIdle : Bool) (fail : ℤ → α) (mutate : Identity → Mutation α) :
    Region α := do
  let now ← getSystemTimeWide
  let current ← stopSessionIsCurrentLocked caller stopToken now requireMutationIdle
  if current then do
    let guid ← findSessionThreadLocked target
    if guid < 0 then pure (fail errorTarget)
    else (mutate ⟨caller.pid, caller.thread, stopToken, target, guid⟩).lift mutationPart
  else pure (fail errorMutationStopRequired)

/-- Restoring does not ask for a live lease. -/
def restoreLocked (handle : Handle) : Region ℤ := do
  let session ← Prog.read (·.core.session)
  if ¬session.isFor caller.pid handle.stopToken ∨ session.controllerThread ≠ caller.thread ∨
      0 ≤ session.exemptThread ∨ session.hardwareMutation ∨ session.hardwareRestorePending then
    pure errorMutationStopRequired
  else do
    let guid ← findSessionThreadLocked handle.targetThread
    if guid < 0 then pure errorTarget
    else do
      let state ← isThreadDebugSuspended
      if state ≤ 0 then pure errorTarget
      else
        (vdThreadMutationRestore
          (some ⟨caller.pid, caller.thread, handle.stopToken, handle.targetThread, guid⟩)
          (some handle) (some backend)).lift mutationPart

/-! The calls, with what they do outside the lock. -/

def callKernel {α : Type} (f : KernelReply → α) : Syscall α := Prog.ask fun answers => f (answers 0)

def matchUserThread (userThread : ℤ) : List ℤ → Syscall ℤ
  | [] => pure (-1)
  | thread :: rest => do
    let user ← callKernel (·.status)
    if user = userThread then pure thread else matchUserThread userThread rest

def findCallerThreadGuid (userThread : ℤ) : Syscall ℤ := do
  let listing ← callKernel fun w => (w.total, w.threads)
  if listing.1 < 0 then pure listing.1 else matchUserThread userThread listing.2

def exemptGuid (exemptUserThread : ℤ) : Syscall ℤ :=
  if 0 ≤ exemptUserThread then findCallerThreadGuid exemptUserThread else pure (-1)

def beginResult (leaseMs : UInt32) (exemptUserThread : ℤ) : Syscall StopResult := do
  let exempt ← exemptGuid exemptUserThread
  if 0 ≤ exemptUserThread ∧ exempt < 0 then pure (failedResult (-3))
  else do
    let listing ← callKernel fun w => (w.total, w.threads)
    if listing.1 < 0 ∨ maxThreads < listing.1 then pure (failedResult (listError listing.1))
    else atomically (beginLocked backend caller exempt leaseMs listing.2)

def vdKernelBeginStop (leaseMs : UInt32) (exemptUserThread : ℤ) (storage : Bool) : Syscall ℤ :=
  if storage = false ∨ ¬validLease leaseMs then pure (-1)
  else do
    let result ← beginResult backend caller leaseMs exemptUserThread
    let copied ← callKernel (·.status)
    if 0 ≤ copied then pure result.failureCode
    else if result.token = 0 then pure copied
    else do
      let _ ← atomically
        (endLocked backend (.beginUncopied caller.pid result.token) caller.pid result.token)
      pure copied

def vdKernelRenewStop (token leaseMs : UInt32) : Syscall ℤ :=
  if token = 0 ∨ ¬validLease leaseMs then pure (-1)
  else atomically (renewLocked caller.pid token leaseMs)

def vdKernelEndStop (token : UInt32) (storage : Bool) : Syscall ℤ :=
  if token = 0 ∨ storage = false then pure (-1)
  else do
    let ended ← atomically (endLocked backend (.endStop caller.pid token) caller.pid token)
    if 0 ≤ ended.1 then callKernel (·.status) else pure ended.1

def vdKernelUpdateHardwarePoint (me : ℕ) (caller : Caller)
    (token stopToken : UInt32) (request : Bool) : Syscall ℤ :=
  if token = 0 ∨ stopToken = 0 ∨ request = false then pure errorHwInvalid
  else do
    let copied ← callKernel (·.status)
    if copied < 0 then pure copied
    else do
      let admitted ← atomically (admitUpdate me caller token stopToken)
      if admitted then do
        let result ← callKernel (·.status)
        let now ← callKernel (·.time)
        let resumed ← atomically (recordUpdate backend me caller token stopToken result now)
        pure (if 0 ≤ result ∧ resumed < 0 then resumed else result)
      else pure errorHwStopRequired

def vdKernelReleaseHardwareDebug (token : UInt32) : Syscall ℤ :=
  if token = 0 then pure errorHwInvalid
  else do
    let result ← callKernel (·.status)
    if result < 0 then pure result
    else do
      let now ← callKernel (·.time)
      atomically (releaseLocked backend caller.pid token result now)

/-- One turn of `watchdog_main`; a turn that misses the lock only waits. -/
def watchdogTurn : Syscall Unit := do
  let now ← callKernel (·.time)
  let first ← callKernel (·.taken)
  if first then do
    let recovery ← atomically (Prog.read fun s => recoveryNeeded s.core.session)
    let recovered ← callKernel (·.status)
    let second ← callKernel (·.taken)
    if second then do
      let _ ← atomically
        (watchdogLocked backend (if 0 ≤ recovered then recovery else none) now)
    else pure ()
  else pure ()

def moduleStop : Syscall ℤ := do
  let stopped ← callKernel (·.status)
  if stopped < 0 then pure stopped else atomically (moduleStopLocked backend)

def vdKernelBeginThreadMutation (request : BeginRequest) : Syscall ℤ := do
  let copied ← callKernel (·.status)
  if copied < 0 then pure copied
  else do
    let begun ← atomically (mutateLocked caller request.stopToken request.targetThread true
      (fun code => (code, none)) fun identity => do
        let result ← vdThreadMutationBegin (some identity) (some request) (some backend) true
        pure (result.1, result.2.map fun handle => (identity, handle)))
    if begun.1 < 0 then pure begun.1
    else do
      let returned ← callKernel (·.status)
      match begun.2 with
      | some (identity, handle) =>
        if returned < 0 then do
          let _ ← atomically ((vdThreadMutationRestore (some identity) (some handle)
            (some backend)).lift mutationPart : Region ℤ)
          pure returned
        else pure returned
      | none => pure returned

def vdKernelStageThreadMutation (request : WriteRequest) : Syscall ℤ := do
  let copied ← callKernel (·.status)
  if copied < 0 then pure copied
  else atomically (mutateLocked caller request.handle.stopToken request.handle.targetThread
    false id fun identity => vdThreadMutationStage (some identity) (some request) (some backend))

def vdKernelCommitThreadMutation (handle : Handle) : Syscall ℤ := do
  let copied ← callKernel (·.status)
  if copied < 0 then pure copied
  else atomically (mutateLocked caller handle.stopToken handle.targetThread false id
    fun identity => vdThreadMutationCommit (some identity) (some handle) (some backend))

def vdKernelRestoreThreadMutation (handle : Handle) : Syscall ℤ := do
  let copied ← callKernel (·.status)
  if copied < 0 then pure copied else atomically (restoreLocked backend caller handle)

inductive KernelCall where
  | beginStop (caller : Caller) (leaseMs : UInt32) (exemptUserThread : ℤ) (storage : Bool)
  | renewStop (caller : Caller) (token leaseMs : UInt32)
  | endStop (caller : Caller) (token : UInt32) (storage : Bool)
  | updateHardwarePoint (caller : Caller) (token stopToken : UInt32) (request : Bool)
  | releaseHardwareDebug (caller : Caller) (token : UInt32)
  | watchdog
  | unload
  | beginThreadMutation (caller : Caller) (request : BeginRequest)
  | stageThreadMutation (caller : Caller) (request : WriteRequest)
  | commitThreadMutation (caller : Caller) (handle : Handle)
  | restoreThreadMutation (caller : Caller) (handle : Handle)

def KernelCall.program (me : ℕ) : KernelCall → Syscall Unit
  | .beginStop caller leaseMs exempt storage => do
    let _ ← vdKernelBeginStop backend caller leaseMs exempt storage
  | .renewStop caller token leaseMs => do
    let _ ← vdKernelRenewStop caller token leaseMs
  | .endStop caller token storage => do
    let _ ← vdKernelEndStop backend caller token storage
  | .updateHardwarePoint caller token stopToken request => do
    let _ ← vdKernelUpdateHardwarePoint backend me caller token stopToken request
  | .releaseHardwareDebug caller token => do
    let _ ← vdKernelReleaseHardwareDebug backend caller token
  | .watchdog => watchdogTurn backend
  | .unload => do
    let _ ← moduleStop backend
  | .beginThreadMutation caller request => do
    let _ ← vdKernelBeginThreadMutation backend caller request
  | .stageThreadMutation caller request => do
    let _ ← vdKernelStageThreadMutation backend caller request
  | .commitThreadMutation caller handle => do
    let _ ← vdKernelCommitThreadMutation backend caller handle
  | .restoreThreadMutation caller handle => do
    let _ ← vdKernelRestoreThreadMutation backend caller handle

/-- The build has no supported setter of a foreign thread's registers. -/
def threadMutationBackend : Backend :=
  ⟨0, 0, false, false, false, false, false, false, false⟩

/-- The static storage of a freshly loaded module. -/
def zeroStopSession : StopSession := ⟨0, 0, 0, 0, [], 0, false, false, false, 0⟩

def loaded (threads : ℤ → ThreadFile) : KernelState where
  core :=
    { session := zeroStopSession
      mutation := booted threads
      nextToken := 1
      owned := []
      found := []
      round := 0
      updates := fun _ => none
      unloading := false }
  resumes := []

end VitaDebugger.KernelStop
