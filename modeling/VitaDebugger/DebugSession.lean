import VitaDebugger.MemoryWrite
import VitaDebugger.ThreadControl

/-! The stopped side of `uvdb.c` with kernel thread control: the stop session as
the debugger sees it, the packets that mutate or resume the target, and the ways
into and out of the packet loop. Kernel and socket calls are answers of the
environment. -/

namespace VitaDebugger.DebugSession
open AtomicProgram BreakpointPatch BreakpointTable MemoryTransaction MemoryWrite ThreadControl

/-- The threads of the debugger itself. -/
structure Helpers where
  controller : ℤ → Bool
  stdio : ℤ → Bool

/-- `serving` holds inside `uvdb_main_loop`. `releases` is a ghost: the mutation
state at each point where the target was released. -/
structure Debugger where
  live : LiveState
  stopToken : ℕ
  stopFailed : Bool
  targetStopped : Bool
  connected : Bool
  ioFailed : Bool
  selection : ThreadSelection
  inventory : ThreadInventory
  exceptionThread : ℤ
  asyncStopPending : Bool
  asyncStopCancelled : Bool
  helpers : Helpers
  serving : Bool
  releases : List LiveState

/-- One answer of the environment. `io.status` is the result of a kernel call and
`target` the next instruction the step decoder finds, if it accepts the current
one. -/
structure DebugReply where
  io : IoReply
  token : ℕ
  threads : Option (List ℤ)
  target : Option (ℕ × ℕ)
  fails : Bool

instance : Nonempty DebugReply := ⟨⟨quiet, 0, none, none, false⟩⟩

abbrev Debug := Prog Debugger DebugReply

def livePart : Prog.Part Debugger LiveState DebugReply IoReply where
  view := (·.live)
  put d live := { d with live }
  answer := (·.io)
  view_put _ _ := rfl
  put_put _ _ _ := rfl
  put_view _ := rfl

def onLive {α : Type} (p : Live α) : Debug α := p.lift livePart

def onTable {α : Type} (p : Table α) : Debug α := onLive (p.lift tablePart)

/-- A failed renewal by the lease keeper marks the session it looked at. -/
def leaseRenewOnce (fails : Bool) (d : Debugger) : Debugger :=
  if d.stopToken ≠ 0 ∧ d.stopFailed = false ∧ fails then { d with stopFailed := true } else d

/-- The keeper may finish one renewal before the controller owns the session. -/
def claimStopController : Debug Unit := Prog.perform fun d w => ((), leaseRenewOnce w.fails d)

/-- Without a token no call is made. -/
def kernelRenewStop (token : ℕ) : Debug ℤ :=
  if token = 0 then pure (-1) else Prog.ask (·.io.status)

def kernelBeginStop : Debug ℤ := do
  claimStopController
  let d ← Prog.read id
  if d.stopToken ≠ 0 then pure (if d.stopFailed then -1 else 0)
  else
    let (status, token, alreadySuspended) ← Prog.ask fun w => (w.io.status, w.token, w.io.count)
    if status < 0 ∨ token = 0 then pure (-1)
    else
      Prog.modify fun d => { d with stopFailed := false, stopToken := token }
      pure (if alreadySuspended = 0 then 0 else -1)

def kernelRecoverStop : Debug ℤ := do
  let token ← Prog.read (·.stopToken)
  let renewed ← kernelRenewStop token
  if 0 ≤ renewed then
    Prog.modify fun d => { d with stopFailed := false }
    pure 0
  else
    let (status, token) ← Prog.ask fun w => (w.io.status, w.token)
    if 0 ≤ status ∧ token ≠ 0 then
      Prog.modify fun d => { d with stopFailed := false, stopToken := token }
      pure 0
    else
      Prog.modify fun d => { d with stopFailed := true }
      pure (-1)

def kernelEndStop : Debug ℤ := do
  let d ← Prog.read id
  if d.stopToken = 0 then pure (if d.stopFailed then -1 else 0)
  else
    let result ← Prog.ask (·.io.status)
    if 0 ≤ result then
      Prog.modify fun d => { d with stopToken := 0, stopFailed := false }
      pure 0
    else
      let recovered ← kernelRecoverStop
      pure (if 0 ≤ recovered then -1 else -2)

def kernelAbandonStop (d : Debugger) : Debugger := { d with stopToken := 0, stopFailed := true }

def closeSocket (d : Debugger) : Debugger := { d with connected := false }

def noteTargetRunning (d : Debugger) : Debugger := { d with
    selection := threadSelectionNoteResume d.selection
    inventory := []
    exceptionThread := -1
    targetStopped := false }

/-- The ghost record of a release. -/
def noteRelease (d : Debugger) : Debugger := { d with releases := d.releases ++ [d.live] }

def stopCleanupCanRelease (coherentStop breakpointsActive : Bool) : Bool :=
  coherentStop || !breakpointsActive

def breakpointAnyActive (breakpoints : Index → Breakpoint) : Bool :=
  decide (breakpointActiveCount breakpoints ≠ 0)

/-- `uvdb_memory_write_restore_pending() < 0 || breakpoint_remove_all() < 0`,
negated. -/
def restoreAll : Debug Bool := do
  let restored ← onLive memoryWriteRestorePending
  if restored < 0 then pure false
  else
    let removed ← onTable breakpointRemoveAll
    pure (decide (0 ≤ removed))

/-- The tail of the client failure once the target may run. -/
def releaseFailedClient (endResult : ℤ) : Debug Unit := do
  Prog.modify fun d => if endResult < 0 ∧ d.stopToken ≠ 0 then kernelAbandonStop d else d
  Prog.modify fun d => noteTargetRunning (noteRelease (closeSocket d))

/-- The end of the stop session, with one retry after a coherent recovery. -/
def endFailedClient : Debug Unit := do
  let endResult ← kernelEndStop
  let d ← Prog.read id
  if endResult < 0 ∧ d.stopToken ≠ 0 ∧ d.stopFailed = false then
    let removed ← onTable breakpointRemoveAll
    if removed < 0 then Prog.modify closeSocket
    else
      let endResult ← kernelEndStop
      releaseFailedClient endResult
  else releaseFailedClient endResult

/-- A usable session counts as coherent; any other is recovered first. -/
def coherentResult : Debug ℤ := do
  let d ← Prog.read id
  if d.stopToken = 0 ∨ d.stopFailed then kernelRecoverStop else pure 0

/-- Code is restored only under a coherent stop. -/
def cleanFailedClient (coherentStop : Bool) : Debug Bool :=
  if coherentStop then restoreAll else pure true

def failStoppedClientOwned : Debug Unit := do
  let live ← Prog.read (·.live)
  let active := breakpointAnyActive live.target.breakpoints ||
    decide (memoryWriteHasPending live.write)
  let recovered ← coherentResult
  let coherentStop := decide (0 ≤ recovered)
  if stopCleanupCanRelease coherentStop active = false then Prog.modify closeSocket
  else
    let cleaned ← cleanFailedClient coherentStop
    if cleaned = false then Prog.modify closeSocket
    else endFailedClient

def failStoppedClient : Debug Unit := do
  claimStopController
  failStoppedClientOwned

def shouldInventoryThread (d : Debugger) (id : ℤ) : Bool :=
  !(d.helpers.controller id || d.helpers.stdio id) ||
    (decide (id = d.exceptionThread) && !d.helpers.controller id)

/-- A thread other than the faulting one must have a readable snapshot. -/
def threadUnreadable (d : Debugger) (thread : ℤ) : Debug Bool :=
  if thread ≠ d.exceptionThread then Prog.ask (·.fails) else pure false

/-- The loop over the kernel's list. -/
def inventoryThreads : List ℤ → Debug ℤ
  | [] => pure 0
  | thread :: rest => do
    let d ← Prog.read id
    if shouldInventoryThread d thread then
      let unreadable ← threadUnreadable d thread
      if unreadable then pure (-1)
      else
        match threadInventoryAdd d.inventory thread with
        | none => pure (-1)
        | some inventory =>
          Prog.modify fun d => { d with inventory }
          inventoryThreads rest
    else inventoryThreads rest

/-- The stopped thread goes first when the kernel lists it. -/
def inventoryStoppedFirst (threads : List ℤ) (d : Debugger) : Option ThreadInventory :=
  if 0 < d.selection.stopped ∧ shouldInventoryThread d d.selection.stopped ∧
      d.selection.stopped ∈ threads then threadInventoryAdd [] d.selection.stopped
  else some []

def refreshThreadInventory : Debug ℤ := do
  let d ← Prog.read id
  if d.stopFailed then pure (-1)
  else
    let renewed ← kernelRenewStop d.stopToken
    if renewed < 0 then
      Prog.modify fun d => { d with stopFailed := true }
      pure (-1)
    else
      match ← Prog.ask (·.threads) with
      | none => pure (-1)
      | some threads =>
        match inventoryStoppedFirst threads d with
        | none => pure (-1)
        | some inventory =>
          Prog.modify fun d => { d with inventory }
          let added ← inventoryThreads threads
          if added < 0 then pure (-1)
          else
            Prog.modify fun d =>
              { d with selection := threadSelectionReconcile d.selection d.inventory }
            pure 0

def beginStoppedOperation : Debug ℤ := do
  claimStopController
  let refreshed ← refreshThreadInventory
  if 0 ≤ refreshed then pure 0
  else
    failStoppedClientOwned
    pure (-1)

/-- A socket operation; a failure is remembered until the next connection. -/
def ioFails : Debug Bool :=
  Prog.perform fun d w => (d.ioFailed || w.fails, { d with ioFailed := d.ioFailed || w.fails })

/-- Every form the step decoder accepts ends in one temporary insertion. -/
def breakpointInsertStepThread : Debug ℤ := do
  match ← Prog.ask (·.target) with
  | none => pure (-1)
  | some (address, size) => onTable (breakpointInsertInternal address size true)

def armStep (plan : ResumePlan) : Debug ℤ :=
  if plan.kind = .step then breakpointInsertStepThread else pure 0

def applyResumePlan (plan : ResumePlan) (hasPcOverride : Bool) : Debug ℤ := do
  let restored ← onTable breakpointRestorePending
  if restored < 0 then pure (-2)
  else
    let d ← Prog.read id
    if resumePlanValidate plan d.exceptionThread d.targetStopped (decide (d.stopToken ≠ 0))
        d.stopFailed hasPcOverride = false then pure (-1)
    else
      let patched ← armStep plan
      if patched = PatchResult.restorePending.code then pure (-2)
      else if patched < 0 then pure (-1)
      else if plan.scope = .stoppedThread then
        Prog.modify noteRelease
        pure 0
      else
        let ended ← kernelEndStop
        if ended < 0 then pure (-2)
        else
          Prog.modify noteRelease
          pure 0

def finishResumePacket : Debug ℤ := do
  if ← ioFails then pure (-1)
  else
    Prog.modify noteTargetRunning
    pure 0

/-- The packets that mutate or resume the target, as their parsers deliver them.
`query` stands for the packets that only read the inventory. -/
inductive Request where
  | malformed
  | query
  | select (operation : UInt8) (text : Bytes)
  | memoryWrite (address : ℕ) (data : Bytes) (size : ℕ)
  | insertBreakpoint (address kind : ℕ)
  | removeBreakpoint (address : ℕ)
  | detach
  | resume (stepping : Bool) (operand : Bytes)
  | vCont (packet : Bytes)
  | fileReply (interrupted : Bool)

/-- Send the reply and stay in the loop unless the client is gone. -/
def packetComplete : Debug Bool := do
  if ← ioFails then
    failStoppedClient
    pure false
  else pure true

def leaveOwned : Debug Bool := do
  failStoppedClientOwned
  pure false

/-- The end of a resume packet that was applied. -/
def leaveResumed : Debug Bool := do
  let finished ← finishResumePacket
  if finished < 0 then
    failStoppedClient
    pure false
  else pure false

/-- The body of a packet that needs the stopped target. -/
def withStopped (body : Debug Bool) : Debug Bool := do
  let opened ← beginStoppedOperation
  if opened < 0 then pure false else body

def serveMutation (result : ℤ) (uncertain : ℤ) : Debug Bool :=
  if result = uncertain then leaveOwned else packetComplete

def serveDetach : Debug Bool := do
  let restored ← restoreAll
  if restored = false then leaveOwned
  else
    let ended ← kernelEndStop
    if ended < 0 then leaveOwned
    else
      let _ ← ioFails
      Prog.modify fun d =>
        { noteTargetRunning (noteRelease (closeSocket d)) with selection := threadSelectionReset }
      pure false

/-- The plan of `c` and `s`; an operand must be an address and name the faulting
thread. -/
def legacyPlan (d : Debugger) (stepping : Bool) (operand : Bytes) : Option ResumePlan :=
  if operand ≠ [] ∧ (rspParseU32Hex operand = none ∨
      threadSelectionStep d.selection d.inventory ≠ d.exceptionThread) then none
  else threadSelectionPlanLegacy d.selection d.inventory stepping

def applyPlanned (plan : Option ResumePlan) (hasPcOverride : Bool) : Debug ℤ :=
  match plan with
  | none => pure (-1)
  | some plan => applyResumePlan plan hasPcOverride

def serveResume (stepping : Bool) (operand : Bytes) : Debug Bool := do
  let d ← Prog.read id
  let result ← applyPlanned (legacyPlan d stepping operand) (decide (operand ≠ []))
  if result = -1 then
    let _ ← ioFails
    pure true
  else if result < 0 then leaveOwned
  else leaveResumed

/-- The plan a `vCont` packet fills in, if it is accepted. -/
def vcontPlan (packet : Bytes) (inventory : ThreadInventory) : Option ResumePlan :=
  let (result, plan) := rspParseVcont packet inventory ⟨.continue, threadAll, .process⟩
  if result < 0 then none else some plan

def serveVCont (packet : Bytes) : Debug Bool := do
  let d ← Prog.read id
  let result ← applyPlanned (vcontPlan packet d.inventory) false
  if result = -1 then packetComplete
  else if result < 0 then leaveOwned
  else leaveResumed

/-- The reply that ends a File-I/O request. An interrupt keeps the target
stopped; any other reply resumes it. -/
def serveFileReply (interrupted : Bool) : Debug Bool :=
  if interrupted then packetComplete
  else do
    if ← ioFails then leaveOwned
    else
      let _ ← ioFails
      let ended ← kernelEndStop
      if ended < 0 then leaveOwned
      else
        Prog.modify fun d => noteTargetRunning (noteRelease d)
        pure false

def Request.serve : Request → Debug Bool
  | .malformed => packetComplete
  | .query => withStopped packetComplete
  | .select operation text => withStopped do
    Prog.modify fun d => { d with selection :=
      (threadSelectionApply d.selection operation text d.inventory).getD d.selection }
    packetComplete
  | .memoryWrite address data size => withStopped do
    serveMutation (← onLive (memoryWriteLive address (some data) size)) (-2)
  | .insertBreakpoint address kind => withStopped do
    serveMutation (← onTable (breakpointInsert address kind)) PatchResult.restorePending.code
  | .removeBreakpoint address => withStopped do
    serveMutation (← onTable (breakpointRemove address)) PatchResult.restorePending.code
  | .detach => withStopped serveDetach
  | .resume stepping operand => withStopped (serveResume stepping operand)
  | .vCont packet => withStopped (serveVCont packet)
  | .fileReply interrupted => withStopped (serveFileReply interrupted)

/-- One round of the packet loop; the answer says whether it goes on. -/
def mainLoopRound (request : Request) : Debug Bool := do
  let stopFailed ← Prog.read (·.stopFailed)
  if stopFailed then
    failStoppedClient
    pure false
  else if ← ioFails then
    failStoppedClient
    pure false
  else request.serve

/-- The selection and the pending Ctrl-C at a fault; `none` when a trap of the
server is dropped because a fault already answered it. -/
def noteException (thread : ℤ) (d : Debugger) : Option Debugger :=
  if d.helpers.controller thread then
    if d.asyncStopCancelled then none
    else some { d with
      asyncStopPending := false
      exceptionThread := thread
      selection := threadSelectionNoteResume d.selection }
  else some { d with
    asyncStopPending := false
    asyncStopCancelled := d.asyncStopCancelled || d.asyncStopPending
    exceptionThread := thread
    selection := threadSelectionNoteStop d.selection thread none }

/-- The thread the stop is reported for, once the inventory is known. -/
def reportStop (thread : ℤ) (d : Debugger) : Option ThreadSelection :=
  if d.helpers.controller thread then
    match d.inventory with
    | [] => none
    | first :: _ => some (threadSelectionNoteStop d.selection first (some d.inventory))
  else if threadInventoryContains d.inventory thread then some d.selection
  else none

/-- The part of `exception_handler` that owns the debugger state. The answer says
whether the packet loop is entered; a File-I/O stop must first send its request. -/
def exceptionHandler (thread : ℤ) (fileRequest : Bool) : Debug Bool := do
  let d ← Prog.read id
  match noteException thread { d with targetStopped := true } with
  | none =>
    Prog.modify fun d => noteTargetRunning { d with asyncStopCancelled := false }
    pure false
  | some noted =>
    Prog.modify fun _ => noted
    let begun ← kernelBeginStop
    if begun < 0 then
      failStoppedClient
      pure false
    else withStopped do
      let d ← Prog.read id
      match reportStop thread d with
      | none => leaveOwned
      | some selection =>
        Prog.modify fun d => { d with selection }
        let removed ← onTable breakpointRemoveTemporary
        if removed < 0 then leaveOwned
        else if fileRequest then
          let failed ← ioFails
          pure !failed
        else pure true

/-- A new connection forgets the previous client but no mutation state. -/
def realUvdbEnter : Debug Unit := do
  let d ← Prog.read id
  if d.connected then pure ()
  else
    let refused ← Prog.ask (·.fails)
    Prog.modify fun d => { d with
      ioFailed := false
      selection := threadSelectionReset
      inventory := []
      exceptionThread := -1
      asyncStopPending := false
      asyncStopCancelled := false
      connected := !refused }

/-- The server severs a session whose trap did not come. -/
def serverDisconnect (d : Debugger) : Debugger := { closeSocket d with
    selection := threadSelectionReset
    inventory := []
    exceptionThread := -1 }

inductive Event where
  | exception (thread : ℤ) (fileRequest : Bool)
  | request (packet : Request)
  | enter
  | disconnect
  | interrupt
  | clientFailure
  | leaseRenew

/-- The packet loop keeps the state lock, so only the client and the lease keeper
act while it serves. -/
def Event.Enabled (d : Debugger) : Event → Prop
  | .exception _ _ => d.serving = false ∧ d.connected
  | .request _ => d.serving
  | .enter => d.serving = false
  | .disconnect => d.serving = false
  | .interrupt => d.serving = false
  | .clientFailure => True
  | .leaseRenew => True

instance (d : Debugger) : (event : Event) → Decidable (event.Enabled d)
  | .exception _ _ => inferInstanceAs (Decidable (_ ∧ _))
  | .request _ => inferInstanceAs (Decidable (_ = _))
  | .enter => inferInstanceAs (Decidable (_ = _))
  | .disconnect => inferInstanceAs (Decidable (_ = _))
  | .interrupt => inferInstanceAs (Decidable (_ = _))
  | .clientFailure => inferInstanceAs (Decidable True)
  | .leaseRenew => inferInstanceAs (Decidable True)

def Event.program : Event → Debug Unit
  | .exception thread fileRequest => do
    let serving ← exceptionHandler thread fileRequest
    Prog.modify fun d => { d with serving }
  | .request packet => do
    let serving ← mainLoopRound packet
    Prog.modify fun d => { d with serving }
  | .enter => realUvdbEnter
  | .disconnect => Prog.modify serverDisconnect
  | .interrupt => Prog.modify fun d =>
    { d with asyncStopCancelled := false, asyncStopPending := true }
  | .clientFailure => Prog.modify fun d => { d with ioFailed := true }
  | .leaseRenew => claimStopController

def booted (mem : Memory) (helpers : Helpers) : Debugger where
  live := ⟨emptyTable mem, ⟨none, memoryTransactionInit none 0, []⟩⟩
  stopToken := 0
  stopFailed := false
  targetStopped := false
  connected := false
  ioFailed := false
  selection := threadSelectionReset
  inventory := []
  exceptionThread := -1
  asyncStopPending := false
  asyncStopCancelled := false
  helpers := helpers
  serving := false
  releases := []

/-- The states reached from boot by events that `allowed` admits. -/
inductive DebugRun (allowed : Event → Debugger → Prop) (mem : Memory) (helpers : Helpers) :
    Debugger → Prop
  | start : DebugRun allowed mem helpers (booted mem helpers)
  | step {d d' : Debugger} (before : DebugRun allowed mem helpers d) (event : Event)
      (enabled : event.Enabled d) (admitted : allowed event d)
      (ends : event.program.Ends d () d') : DebugRun allowed mem helpers d'

/-- The run of listed events with their answers, as far as each is enabled and
admitted. -/
def replay (allowed : Event → Debugger → Prop) [∀ event d, Decidable (allowed event d)] :
    List (Event × List DebugReply) → Debugger → Option Debugger
  | [], d => some d
  | (event, script) :: rest, d =>
    if event.Enabled d ∧ allowed event d then
      match event.program.exec script d with
      | none => none
      | some (_, d', _) => replay allowed rest d'
    else none

theorem DebugRun.replay {a : Event → Debugger → Prop}
    [∀ e d, Decidable (a e d)] {mem : Memory} {hs : Helpers}
    (es : List (Event × List DebugReply)) {d d' : Debugger}
    (hb : DebugRun a mem hs d)
    (ho : DebugSession.replay a es d = some d') :
    DebugRun a mem hs d' := by
  induction es generalizing d with
  | nil =>
    obtain rfl := Option.some.inj ho
    exact hb
  | cons head rest ih =>
    obtain ⟨e, script⟩ := head
    simp only [DebugSession.replay] at ho
    split_ifs at ho with hp
    split at ho
    · exact nomatch ho
    · next d₁ unread he =>
      exact ih (hb.step e hp.1 hp.2 (Prog.ends_of_exec he)) ho

end VitaDebugger.DebugSession
