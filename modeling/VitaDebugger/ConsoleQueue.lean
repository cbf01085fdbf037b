import Mathlib.Data.UInt
import VitaDebugger.AtomicProgram
import VitaDebugger.ConsoleFrame
import VitaDebugger.RingQueue

/-! Captured console output: the queue of `uvdb_console.c` and the transport that
sends it. One action is one atomic access to a shared variable or the work done on the
queue while its lock is held. A lock attempt may fail although the lock is free. -/

namespace VitaDebugger.ConsoleQueue
open AtomicProgram ConsoleFrame RingQueue Function

abbrev queueSlots : ℕ := 64
abbrev sessionOpenBit : UInt32 := 0x80000000
abbrev sessionGeneration : UInt32 := 0x7fffffff

inductive ConsoleResult where
  | error
  | empty
  | ready
  | busy
  | stale
  deriving DecidableEq

structure Record where
  generation : UInt32
  sequence : UInt64
  data : Bytes
  deriving DecidableEq

inductive Counter where
  | queuedRecords
  | queuedBytes
  | sessionsOpened
  | reconnects
  | acceptedRecords
  | acceptedBytes
  | sentRecords
  | sentBytes
  | droppedDisconnectedRecords
  | droppedDisconnectedBytes
  | droppedContentionRecords
  | droppedContentionBytes
  | droppedFullRecords
  | droppedFullBytes
  | droppedStaleRecords
  | droppedStaleBytes
  deriving DecidableEq

inductive TransportCounter where
  | framesSent
  | frameBytesSent
  | wouldBlock
  | commitBusy
  | partialWrites
  | hardErrors
  | sessionErrors
  deriving DecidableEq

structure Transport where
  generation : UInt32
  sentUncommittedSequence : UInt64
  noAckMode : Bool
  failed : Bool
  stats : TransportCounter → UInt32
  lastNativeError : ℤ

inductive Outcome where
  | complete
  | blocked
  | failed
  deriving DecidableEq

/-- One call of the write function: the first `sent` bytes of the frame left. -/
structure Write where
  record : Record
  frame : Bytes
  sent : ℕ
  outcome : Outcome

/-- What one connection has been given, the latest write first. -/
structure Connection where
  generation : UInt32
  writes : List Write

/-- The shared variables, the transport of the owning thread, and as history the
records and bytes accepted so far, the connections and the number of sessions. A lock
names the thread that holds it. -/
structure ConsoleState where
  ring : Ring Record queueSlots
  bytes : UInt32
  nextSequence : UInt64
  session : UInt32
  everOpened : Bool
  queueLock : Option ℕ
  lifecycleLock : Option ℕ
  stats : Counter → UInt32
  transport : Transport
  accepted : List Record
  captured : UInt32 → Bytes
  current : Connection
  past : List Connection
  opened : ℕ

inductive WriteResult where
  | error
  | complete
  | wouldBlock
  deriving DecidableEq

structure ConsoleReply where
  locked : Bool
  result : WriteResult
  sent : ℕ
  nativeError : ℤ

instance : Nonempty ConsoleReply := ⟨⟨true, .complete, 0, 0⟩⟩

abbrev Console := Prog ConsoleState ConsoleReply

def isOpen (session : UInt32) : Bool := session &&& sessionOpenBit ≠ 0

def generationOf (session : UInt32) : UInt32 := session &&& sessionGeneration

def openSession (generation : UInt32) : UInt32 := generation ||| sessionOpenBit

def generationValid (generation : UInt32) : Bool :=
  generation ≠ 0 ∧ generation &&& ~~~sessionGeneration = 0

def recordCount (size : ℕ) : ℕ := size / recordMax + if size % recordMax = 0 then 0 else 1

namespace ConsoleState
variable (s : ConsoleState)

def add (counter : Counter) (amount : ℕ) : ConsoleState := { s with
    stats := update s.stats counter (s.stats counter + UInt32.ofNat amount) }

def publishDepth : ConsoleState := { s with
    stats := update
      (update s.stats .queuedRecords (UInt32.ofNat s.ring.count)) .queuedBytes s.bytes }

def removeHead (filled : 0 < s.ring.count) : ConsoleState := { s with
    ring := s.ring.pop filled
    bytes := s.bytes - UInt32.ofNat (s.ring.get 0).data.length }

def dropHeadAsStale : ConsoleState :=
  if filled : 0 < s.ring.count then
    let noted := (s.add .droppedStaleRecords 1).add .droppedStaleBytes (s.ring.get 0).data.length
    noted.removeHead filled
  else s

/-- The loop of both purges, with the number of records as fuel. -/
def purgeWhile (unwanted : Record → Bool) : ℕ → ConsoleState → ConsoleState
  | 0, s => s
  | fuel + 1, s =>
    match s.ring.front? with
    | none => s
    | some record => if unwanted record then purgeWhile unwanted fuel s.dropHeadAsStale else s

def purge : ConsoleState :=
  let purged := purgeWhile (fun _ => true) s.ring.count s
  { purged with ring := purged.ring.clear }.publishDepth

def purgeOtherGenerations (generation : UInt32) : ConsoleState :=
  (purgeWhile (·.generation ≠ generation) s.ring.count s).publishDepth

def nextNonzero (sequence : UInt64) : UInt64 := if sequence + 1 = 0 then 1 else sequence + 1

/-- The capture loop, with the number of free slots as fuel: the records stored and
the bytes left over. -/
def storeRecords (generation : UInt32) : ℕ → Bytes → ConsoleState →
    ConsoleState × List Record × Bytes
  | 0, data, s => (s, [], data)
  | fuel + 1, data, s =>
    if room : data ≠ [] ∧ s.ring.count < queueSlots then
      let record : Record := ⟨generation, nextNonzero s.nextSequence, data.take recordMax⟩
      let stored :=
        { s with
          ring := s.ring.push record room.2
          nextSequence := nextNonzero s.nextSequence
          bytes := s.bytes + UInt32.ofNat record.data.length }
      let after := storeRecords generation fuel (data.drop recordMax) stored
      (after.1, record :: after.2.1, after.2.2)
    else (s, [], data)

end ConsoleState

/-! Single accesses. -/

def consoleAdd (counter : Counter) (amount : ℕ) : Console Unit := Prog.modify (·.add counter amount)

def tryLock (holder : ConsoleState → Option ℕ) (take : ConsoleState → ConsoleState) :
    Console Bool := Prog.perform fun s w =>
  if holder s = none ∧ w.locked then (true, take s) else (false, s)

variable (me : ℕ)

def tryLockQueue : Console Bool :=
  tryLock (·.queueLock) fun s => { s with queueLock := some me }

def unlockQueue : Console Unit := Prog.modify fun s => { s with queueLock := none }

def tryLockLifecycle : Console Bool :=
  tryLock (·.lifecycleLock) fun s => { s with lifecycleLock := some me }

def unlockLifecycle : Console Unit := Prog.modify fun s => { s with lifecycleLock := none }

def loadSession : Console UInt32 := Prog.read (·.session)

def onTransport (f : Transport → Transport) : Console Unit :=
  Prog.modify fun s => { s with transport := f s.transport }

inductive DropCause where
  | disconnected
  | contention
  | full
  | stale

def DropCause.records : DropCause → Counter
  | .disconnected => .droppedDisconnectedRecords
  | .contention => .droppedContentionRecords
  | .full => .droppedFullRecords
  | .stale => .droppedStaleRecords

def DropCause.bytes : DropCause → Counter
  | .disconnected => .droppedDisconnectedBytes
  | .contention => .droppedContentionBytes
  | .full => .droppedFullBytes
  | .stale => .droppedStaleBytes

def noteDrop (cause : DropCause) (size : ℕ) : Console Unit :=
  if size = 0 then pure ()
  else do
    consoleAdd cause.records (recordCount size)
    consoleAdd cause.bytes size

/-! Sessions. -/

def nextGeneration (old : UInt32) : UInt32 :=
  if (old + 1) &&& sessionGeneration = 0 then 1 else (old + 1) &&& sessionGeneration

def purgeIfFree : Console Bool := do
  let taken ← tryLockQueue me
  if taken then do
    Prog.modify (·.purge)
    unlockQueue
    pure true
  else pure false

def noteOpened : Console Unit := do
  consoleAdd .sessionsOpened 1
  let again ← Prog.read (·.everOpened)
  if again then consoleAdd .reconnects 1
  else Prog.modify fun s => { s with everOpened := true }

def sessionOpen : Console UInt32 := do
  let held ← tryLockLifecycle me
  if held then do
    let oldSession ← loadSession
    Prog.modify fun s => { s with session := generationOf oldSession }
    let _ ← purgeIfFree me
    noteOpened
    Prog.modify fun s =>
      { s with
        session := openSession (nextGeneration (generationOf oldSession))
        opened := s.opened + 1 }
    unlockLifecycle
    pure (nextGeneration (generationOf oldSession))
  else pure 0

/-- The compare-and-exchange loop of `uvdb_console_session_close` as the one access
that ends it: the gate is closed, or the token is superseded. -/
def closeGate (generation : UInt32) : Console Bool := Prog.perform fun s _ =>
  if s.session = generation then (true, s)
  else if s.session = openSession generation then (true, { s with session := generation })
  else (false, s)

def sessionClose (generation : UInt32) : Console ConsoleResult :=
  if generationValid generation then do
    let closed ← closeGate generation
    if closed then do
      let held ← tryLockLifecycle me
      if held then do
        let purged ← purgeIfFree me
        unlockLifecycle
        pure (if purged then .ready else .busy)
      else pure .busy
    else pure .stale
  else pure .error

/-- As above, for whichever session is open. -/
def sessionCloseActiveGate : Console Unit := Prog.modify fun s =>
  if isOpen s.session then { s with session := generationOf s.session } else s

/-! Capture, peek and commit. -/

def captureLocked (generation : UInt32) (data : Bytes) : Console (ℕ × ℕ) :=
  Prog.perform fun s _ =>
    let purged := s.purgeOtherGenerations generation
    let stored := ConsoleState.storeRecords generation queueSlots data purged
    let taken := data.length - stored.2.2.length
    ((stored.2.1.length, taken), { stored.1.publishDepth with
        accepted := s.accepted ++ stored.2.1
        captured := update s.captured generation
          (s.captured generation ++ data.take taken) })

def noteAccepted (records taken : ℕ) : Console Unit :=
  if records = 0 then pure ()
  else do
    consoleAdd .acceptedRecords records
    consoleAdd .acceptedBytes taken

def capture (data : Bytes) : Console ℕ :=
  if data = [] then pure 0
  else do
    let session ← loadSession
    if isOpen session then do
      let taken ← tryLockQueue me
      if taken then do
        let again ← loadSession
        if again = session then do
          let stored ← captureLocked (generationOf session) data
          unlockQueue
          noteAccepted stored.1 stored.2
          noteDrop .full (data.length - stored.2)
          pure stored.2
        else do
          unlockQueue
          noteDrop .stale data.length
          pure 0
      else do
        noteDrop .contention data.length
        pure 0
    else do
      noteDrop .disconnected data.length
      pure 0

def peekLocked (generation : UInt32) : Console (Option Record) := Prog.perform fun s _ =>
  ((s.purgeOtherGenerations generation).ring.front?, s.purgeOtherGenerations generation)

def peek (generation : UInt32) : Console (ConsoleResult × Option Record) :=
  if generationValid generation then do
    let session ← loadSession
    if session = openSession generation then do
      let taken ← tryLockQueue me
      if taken then do
        let again ← loadSession
        if again = openSession generation then do
          let head ← peekLocked generation
          unlockQueue
          pure (if head.isSome then .ready else .empty, head)
        else do
          unlockQueue
          pure (.stale, none)
      else pure (.busy, none)
    else pure (.stale, none)
  else pure (.error, none)

/-- The size of the head record, which is removed if it has the sequence number. -/
def commitLocked (generation : UInt32) (sequence : UInt64) : Console (Option ℕ) :=
  Prog.perform fun s _ =>
    let purged := s.purgeOtherGenerations generation
    if filled : 0 < purged.ring.count ∧ (purged.ring.get 0).sequence = sequence then
      (some (purged.ring.get 0).data.length, (purged.removeHead filled.1).publishDepth)
    else (none, purged)

def noteSent (size : ℕ) : Console Unit := do
  consoleAdd .sentRecords 1
  consoleAdd .sentBytes size

def commitSent (generation : UInt32) (sequence : UInt64) : Console ConsoleResult :=
  if generationValid generation ∧ sequence ≠ 0 then do
    let session ← loadSession
    if session = openSession generation then do
      let taken ← tryLockQueue me
      if taken then do
        let again ← loadSession
        if again = openSession generation then do
          let removed ← commitLocked generation sequence
          unlockQueue
          match removed with
          | some size => do
            noteSent size
            pure .ready
          | none => pure .stale
        else do
          unlockQueue
          pure .stale
      else pure .busy
    else pure .stale
  else pure .error

/-! The transport. -/

inductive PumpResult where
  | fatal
  | idle
  | sent
  | busy
  | wouldBlock
  | committed
  deriving DecidableEq

namespace Transport

def count (t : Transport) (counter : TransportCounter) (amount : UInt32) : Transport :=
  { t with stats := update t.stats counter (t.stats counter + amount) }

def sessionError (t : Transport) : Transport :=
  { t.count .sessionErrors 1 with sentUncommittedSequence := 0, failed := true }

def reset (t : Transport) : Transport :=
  { t with noAckMode := false, sentUncommittedSequence := 0, failed := false }

end Transport

/-- The transport belongs to a new session, and so does its connection. -/
def adoptSession (generation : UInt32) : Console Unit := Prog.modify fun s =>
  { s with
    transport := { s.transport with generation }
    current := { s.current with generation } }

def ensureSession : Console ConsoleResult := do
  let transport ← Prog.read (·.transport)
  if transport.noAckMode = false then pure .empty
  else if transport.generation ≠ 0 then pure .ready
  else do
    let generation ← sessionOpen me
    if generation = 0 then pure .busy
    else do
      adoptSession generation
      pure .ready

/-- The old connection is over; what follows belongs to a new one. -/
def detachConnection : Console Unit := Prog.modify fun s =>
  { s with
    transport := { s.transport.reset with generation := 0 }
    current := ⟨0, []⟩
    past := s.current :: s.past }

def endConnection : Console ConsoleResult := do
  let generation ← Prog.read (·.transport.generation)
  detachConnection
  if generation = 0 then pure .ready else sessionClose me generation

def beginConnection : Console ConsoleResult := do
  let result ← endConnection me
  onTransport (·.reset)
  pure result

def enableNoAck : Console ConsoleResult := do
  let failed ← Prog.read (·.transport.failed)
  if failed then pure .error
  else do
    onTransport fun t => { t with noAckMode := true }
    ensureSession me

def writeOutcome (result : WriteResult) (sent size : ℕ) : Outcome :=
  if result = .wouldBlock ∧ sent = 0 then .blocked
  else if result = .complete ∧ sent = size then .complete
  else .failed

/-- One call of the write function, which reports the bytes it passed on. -/
def writeFrame (record : Record) (frame : Bytes) : Console (WriteResult × ℕ × ℤ) :=
  Prog.perform fun s w =>
    let sent := min w.sent frame.length
    let write : Write := ⟨record, frame, sent, writeOutcome w.result sent frame.length⟩
    ((w.result, sent, w.nativeError),
      { s with current := { s.current with writes := write :: s.current.writes } })

/-- A commit, with what the pump answers when the queue is busy and when it is done. -/
def settle (generation : UInt32) (sequence : UInt64) (whenBusy whenDone : PumpResult) :
    Console PumpResult := do
  let result ← commitSent me generation sequence
  if result = .busy then do
    onTransport (·.count .commitBusy 1)
    pure whenBusy
  else if result = .ready then do
    onTransport fun t => { t with sentUncommittedSequence := 0 }
    pure whenDone
  else do
    onTransport (·.sessionError)
    pure .fatal

def Transport.broken (t : Transport) (sent : ℕ) (result : WriteResult) (nativeError : ℤ) :
    Transport :=
  { t.count (if result = .complete ∨ sent ≠ 0 then .partialWrites else .hardErrors) 1 with
    lastNativeError := nativeError, failed := true }

def Transport.blocked (t : Transport) (nativeError : ℤ) : Transport :=
  { t.count .wouldBlock 1 with lastNativeError := nativeError }

def Transport.wrote (t : Transport) (size : ℕ) (sequence : UInt64) : Transport :=
  { (t.count .framesSent 1).count .frameBytesSent (UInt32.ofNat size) with
    sentUncommittedSequence := sequence }

def sendRecord (generation : UInt32) (record : Record) : Console PumpResult :=
  match transportFrameRecord record.data with
  | none => do
    onTransport (·.sessionError)
    pure .fatal
  | some frame => do
    let written ← writeFrame record frame
    if written.1 = .wouldBlock ∧ written.2.1 = 0 then do
      onTransport (·.blocked written.2.2)
      pure .wouldBlock
    else if written.1 ≠ .complete ∨ written.2.1 ≠ frame.length then do
      onTransport (·.broken written.2.1 written.1 written.2.2)
      pure .fatal
    else do
      let transport ← Prog.read (·.transport)
      if transport.noAckMode = false ∨ transport.generation ≠ generation then do
        onTransport (·.sessionError)
        pure .fatal
      else do
        onTransport (·.wrote frame.length record.sequence)
        settle me generation record.sequence .sent .sent

def sendNext (generation : UInt32) : Console PumpResult := do
  let peeked ← peek me generation
  match peeked with
  | (.empty, _) => pure .idle
  | (.busy, _) => pure .busy
  | (.ready, some record) => sendRecord me generation record
  | _ => do
    onTransport (·.sessionError)
    pure .fatal

def pumpSession : Console PumpResult := do
  let transport ← Prog.read (·.transport)
  if transport.sentUncommittedSequence ≠ 0 then
    settle me transport.generation transport.sentUncommittedSequence .busy .committed
  else sendNext me transport.generation

def pump : Console PumpResult := do
  let failed ← Prog.read (·.transport.failed)
  if failed then pure .fatal
  else do
    let session ← ensureSession me
    if session = .empty then pure .idle
    else if session = .busy then pure .busy
    else if session = .ready then pumpSession me
    else do
      onTransport (·.sessionError)
      pure .fatal

inductive ConsoleCall where
  | capture (data : Bytes)
  | closeActiveGate
  | beginConnection
  | enableNoAck
  | endConnection
  | pump

namespace ConsoleCall

/-- The transport's own calls come from one thread. -/
def OwnerOnly : ConsoleCall → Prop
  | .capture _ => False
  | .closeActiveGate => False
  | _ => True

def program : ConsoleCall → Console Unit
  | .capture data => do
    let _ ← ConsoleQueue.capture me data
  | .closeActiveGate => sessionCloseActiveGate
  | .beginConnection => do
    let _ ← ConsoleQueue.beginConnection me
  | .enableNoAck => do
    let _ ← ConsoleQueue.enableNoAck me
  | .endConnection => do
    let _ ← ConsoleQueue.endConnection me
  | .pump => do
    let _ ← ConsoleQueue.pump me

end ConsoleCall

def zeroTransport : Transport := ⟨0, 0, false, false, fun _ => 0, 0⟩

/-- After `uvdb_console_reset` and `uvdb_console_transport_init`. -/
def reset : ConsoleState where
  ring := .empty ⟨0, 0, []⟩ (by decide)
  bytes := 0
  nextSequence := 0
  session := 0
  everOpened := false
  queueLock := none
  lifecycleLock := none
  stats := fun _ => 0
  transport := zeroTransport
  accepted := []
  captured := fun _ => []
  current := ⟨0, []⟩
  past := []
  opened := 0

end VitaDebugger.ConsoleQueue
