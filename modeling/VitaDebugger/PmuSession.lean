import VitaDebugger.AtomicProgram
import Mathlib.Algebra.GroupWithZero.Nat
import Mathlib.Data.Fintype.Pi

/-! The PMU session of `pmu_session.c`. The backend callbacks are answers of the
environment; each call and each lease token taken is recorded in a ghost list. -/

namespace VitaDebugger.PmuSession
open AtomicProgram

abbrev abiVersion : UInt32 := 1
abbrev sessionCookie : UInt32 := 0x504D5531
abbrev minLeaseMs : UInt32 := 250
abbrev maxLeaseMs : UInt32 := 5000
abbrev maxEvents : ℕ := 4
instance someEvents : NeZero maxEvents := ⟨by decide⟩
abbrev maxActiveEvents : UInt32 := 1
abbrev physicalEventCounters : ℕ := 6
abbrev physicalCoreCount : UInt32 := 4
abbrev flagCycles : UInt32 := 1
abbrev allowedFlags : UInt32 := 0
abbrev configurationEnableGlobal : UInt32 := 1

abbrev errorInvalid : ℤ := -100
abbrev errorBusy : ℤ := -101
abbrev errorOwner : ℤ := -102
abbrev errorUnsupportedEvent : ℤ := -103
abbrev errorRestoreRequired : ℤ := -104
abbrev errorExpired : ℤ := -105
abbrev errorClock : ℤ := -106
abbrev errorState : ℤ := -107
abbrev errorNotIdle : ℤ := -108
abbrev errorBackendContract : ℤ := -109
abbrev watchdogRestored : ℤ := 1

def pmcrResetBits : UInt32 := (1 : UInt32) <<< 1 ||| (1 : UInt32) <<< 2

/-- Lanes 0 to 5 and the cycle bit. -/
def implementedCounterMask : UInt32 := (0x3f : UInt32) ||| (1 : UInt32) <<< 31

structure EventMetadata where
  eventId : UInt32
  eventCode : UInt32
  physicalCounter : UInt32
  deriving DecidableEq

structure SessionRequest where
  structSize : UInt32
  abiVersion : UInt32
  leaseMs : UInt32
  flags : UInt32
  eventCount : UInt32
  eventIds : Fin maxEvents → UInt32
  reserved : Fin 3 → UInt32

structure SessionOwner where
  ownerPid : ℤ
  ownerToken : UInt32
  coreId : UInt32
  deriving DecidableEq

structure Snapshot where
  eventCounterCount : UInt32
  rawPmcr : UInt32
  rawPmcntenset : UInt32
  rawPmovsr : UInt32
  rawPmselr : UInt32
  rawPmccntr : UInt32
  rawPmuserenr : UInt32
  rawPmintenset : UInt32
  rawPmxevtyper : Fin physicalEventCounters → UInt32
  rawPmxevcntr : Fin physicalEventCounters → UInt32
  deriving DecidableEq

structure Configuration where
  flags : UInt32
  eventCount : UInt32
  controlFlags : UInt32
  events : Fin maxEvents → EventMetadata
  deriving DecidableEq

structure CounterValues where
  cycles : UInt32
  events : Fin maxEvents → UInt32

structure Reading where
  timestampMs : UInt64
  leaseToken : UInt64
  flags : UInt32
  eventCount : UInt32
  cycles : UInt32
  events : Fin maxEvents → EventMetadata × UInt32

/-- Each flag says whether the callback pointer is set. -/
structure Backend where
  context : ℕ
  snapshot : Bool
  configure : Bool
  read : Bool
  restore : Bool
  nowMs : Bool
  deriving DecidableEq

inductive SessionState where
  | empty
  | active
  | restorePending
  deriving DecidableEq

/-- What an acquisition saves for its restoration. -/
structure Lease where
  owner : SessionOwner
  configuration : Configuration
  original : Snapshot
  backend : Backend
  deriving DecidableEq

structure Session where
  initializationCookie : UInt32
  nextLeaseToken : UInt64
  leaseToken : UInt64
  acquiredMs : UInt64
  deadlineMs : UInt64
  state : SessionState
  lastBackendError : ℤ
  lease : Lease

def zeroMetadata : EventMetadata := ⟨0, 0, 0⟩

def zeroLease : Lease where
  owner := ⟨0, 0, 0⟩
  configuration := ⟨0, 0, 0, fun _ => zeroMetadata⟩
  original := ⟨0, 0, 0, 0, 0, 0, 0, 0, fun _ => 0, fun _ => 0⟩
  backend := ⟨0, false, false, false, false, false⟩

def zeroSession : Session := ⟨0, 0, 0, 0, 0, .empty, 0, zeroLease⟩

/-- One entry of the ghost record. A callback that works for a lease is recorded
with the lease the session held. -/
inductive Call where
  | nowMs (backend : Backend) (result : ℤ) (value : UInt64)
  | snapshot (backend : Backend) (core : UInt32) (result : ℤ) (value : Snapshot)
  | configure (lease : Lease) (result : ℤ)
  | read (lease : Lease) (result : ℤ) (values : CounterValues)
  | restore (lease : Lease) (result : ℤ)
  | token (value : UInt64)

structure PmuState where
  session : Session
  calls : List Call

def PmuState.log (s : PmuState) (call : Call) : PmuState := { s with calls := s.calls ++ [call] }

/-- One answer of the backend. -/
structure PmuReply where
  result : ℤ
  time : UInt64
  snapshot : Snapshot
  values : CounterValues

instance : Nonempty PmuReply := ⟨⟨0, 0, zeroLease.original, ⟨0, fun _ => 0⟩⟩⟩

abbrev Pmu := Prog PmuState PmuReply

def callNowMs (backend : Backend) : Pmu (ℤ × UInt64) :=
  Prog.perform fun s w => ((w.result, w.time), s.log (.nowMs backend w.result w.time))

def callSnapshot (backend : Backend) (core : UInt32) : Pmu (ℤ × Snapshot) := Prog.perform fun s w =>
    ((w.result, w.snapshot), s.log (.snapshot backend core w.result w.snapshot))

def callConfigure : Pmu ℤ :=
  Prog.perform fun s w => (w.result, s.log (.configure s.session.lease w.result))

def callRead : Pmu (ℤ × CounterValues) :=
  Prog.perform fun s w =>
    ((w.result, w.values), s.log (.read s.session.lease w.result w.values))

def callRestore : Pmu ℤ :=
  Prog.perform fun s w => (w.result, s.log (.restore s.session.lease w.result))

def onSession (f : Session → Session) : Pmu Unit :=
  Prog.modify fun s => { s with session := f s.session }

def allowlistedEvents : List (UInt32 × UInt32) :=
  [(1, 0x01), (2, 0x03), (3, 0x04), (4, 0x10), (5, 0x12), (6, 0x70), (7, 0x71), (8, 0x72),
    (9, 0x73), (10, 0x74), (11, 0x00)]

def vdPmuSessionLookupEvent (eventId : UInt32) : Except ℤ EventMetadata :=
  match allowlistedEvents.find? fun event => event.1 == eventId with
  | some (_, eventCode) => .ok ⟨eventId, eventCode, 0⟩
  | none => .error errorUnsupportedEvent

def restoredOwnedFieldsEqual (current original : Snapshot) (configuration : Configuration) : Bool :=
  if configuration.eventCount ≠ maxActiveEvents then false
  else if (configuration.events 0).physicalCounter ≠ UInt32.ofNat physicalEventCounters - 1 ∨
      current.eventCounterCount ≠ original.eventCounterCount then false
  else if current.rawPmcr &&& ~~~pmcrResetBits ≠ original.rawPmcr &&& ~~~pmcrResetBits ∨
      current.rawPmcntenset &&& implementedCounterMask ≠
        original.rawPmcntenset &&& implementedCounterMask ∨
      current.rawPmovsr &&& implementedCounterMask ≠ original.rawPmovsr &&& implementedCounterMask ∨
      current.rawPmselr ≠ original.rawPmselr ∨
      current.rawPmccntr ≠ original.rawPmccntr ∨
      current.rawPmuserenr ≠ original.rawPmuserenr ∨
      current.rawPmintenset &&& implementedCounterMask ≠
        original.rawPmintenset &&& implementedCounterMask then false
  else decide (∀ i, current.rawPmxevtyper i = original.rawPmxevtyper i ∧
    current.rawPmxevcntr i = original.rawPmxevcntr i)

def ownerValid (owner : SessionOwner) : Bool :=
  decide (0 ≤ owner.ownerPid ∧ owner.ownerToken ≠ 0 ∧ owner.coreId < physicalCoreCount)

def backendValid (backend : Backend) : Bool :=
  backend.snapshot && backend.configure && backend.read && backend.restore && backend.nowMs

def backendFailure (result : ℤ) : ℤ := if result < 0 then result else errorBackendContract

/-- The checks on one entry of `event_ids`. -/
def eventIdValid (request : SessionRequest) (i : Fin maxEvents) : Bool :=
  if request.eventCount ≤ UInt32.ofNat i then decide (request.eventIds i = 0)
  else decide (request.eventIds i ≠ 0) && (vdPmuSessionLookupEvent (request.eventIds i)).isOk &&
    decide (∀ j < i, request.eventIds i ≠ request.eventIds j)

def requestValid (request : SessionRequest) : Bool :=
  decide (request.structSize = 48 ∧ request.abiVersion = abiVersion ∧
    minLeaseMs ≤ request.leaseMs ∧ request.leaseMs ≤ maxLeaseMs ∧
    request.flags &&& ~~~allowedFlags = 0 ∧ request.eventCount = maxActiveEvents ∧
    (∀ i, request.reserved i = 0) ∧ ∀ i, eventIdValid request i)

/-- The loop over the requested events, all on the last lane. -/
def configureEvents (request : SessionRequest) :
    List (Fin maxEvents) → (Fin maxEvents → EventMetadata) →
      Except ℤ (Fin maxEvents → EventMetadata)
  | [], events => .ok events
  | i :: rest, events =>
    if UInt32.ofNat i < request.eventCount then
      match vdPmuSessionLookupEvent (request.eventIds i) with
      | .error code => .error code
      | .ok metadata =>
        let metadata := { metadata with physicalCounter := UInt32.ofNat physicalEventCounters - 1 }
        configureEvents request rest (Function.update events i metadata)
    else .ok events

def makeConfiguration (request : SessionRequest) (snapshot : Snapshot) : Except ℤ Configuration :=
  if snapshot.rawPmcntenset &&& implementedCounterMask ≠ 0 ∨
      snapshot.rawPmintenset &&& implementedCounterMask ≠ 0 ∨
      snapshot.rawPmovsr &&& implementedCounterMask ≠ 0 then .error errorNotIdle
  else
    match configureEvents request (List.finRange maxEvents) fun _ => zeroMetadata with
    | .error code => .error code
    | .ok events => .ok
      { flags := request.flags
        eventCount := request.eventCount
        controlFlags := if snapshot.rawPmcr &&& 1 = 0 then configurationEnableGlobal else 0
        events }

def clearLease (session : Session) : Session := { zeroSession with
    initializationCookie := session.initializationCookie
    nextLeaseToken := if session.nextLeaseToken = 0 then 1 else session.nextLeaseToken }

/-- The token the next acquisition takes. -/
def freshToken (session : Session) : UInt64 :=
  if session.nextLeaseToken = 0 then 1 else session.nextLeaseToken

def takeLeaseToken : Pmu Unit :=
  Prog.modify fun s =>
    let token := freshToken s.session
    let next := if token + 1 = 0 then 1 else token + 1
    { session := { s.session with nextLeaseToken := next, leaseToken := token }
      calls := s.calls ++ [.token token] }

def saturatingDeadline (nowMs : UInt64) (leaseMs : UInt32) : UInt64 :=
  if UInt64.ofNat (2 ^ 64 - 1) - nowMs < leaseMs.toUInt64 then UInt64.ofNat (2 ^ 64 - 1)
  else nowMs + leaseMs.toUInt64

def noteBackendError (error : ℤ) : Pmu Unit :=
  onSession fun session => { session with lastBackendError := error }

def restoreExact : Pmu ℤ := do
  onSession fun session => { session with state := .restorePending }
  let lease ← Prog.read (·.session.lease)
  let result ← callRestore
  if result ≠ 0 then
    noteBackendError (backendFailure result)
    pure errorRestoreRequired
  else
    let (result, verification) ← callSnapshot lease.backend lease.owner.coreId
    if result ≠ 0 then
      noteBackendError (backendFailure result)
      pure errorRestoreRequired
    else if restoredOwnedFieldsEqual verification lease.original lease.configuration = false then
      noteBackendError errorRestoreRequired
      pure errorRestoreRequired
    else
      onSession clearLease
      pure 0

/-- A restoration that failed decides the result; otherwise `error` does. -/
def restoreAfter (error : ℤ) : Pmu ℤ := do
  let result ← restoreExact
  pure (if result < 0 then result else error)

def ownerAndTokenValid (session : Session) (owner : Option SessionOwner) (leaseToken : UInt64) :
    ℤ :=
  if session.initializationCookie ≠ sessionCookie ∨ session.state = .empty then errorState
  else
    match owner with
    | none => errorOwner
    | some owner =>
      if ownerValid owner = false ∨ leaseToken = 0 ∨ leaseToken ≠ session.leaseToken ∨
        owner ≠ session.lease.owner then errorOwner else 0

/-- Storage is initialised once; a later call changes nothing. -/
def vdPmuSessionInit : Pmu Unit :=
  onSession fun session =>
    if session.initializationCookie = sessionCookie then session
    else if session.initializationCookie ≠ 0 then session
    else { zeroSession with initializationCookie := sessionCookie, nextLeaseToken := 1 }

/-- The pending token is handed out when the restoration did not succeed. -/
def abandonAcquire (error : ℤ) : Pmu (ℤ × Option UInt64) := do
  let pendingToken ← Prog.read (·.session.leaseToken)
  let result ← restoreExact
  pure (if result < 0 then (result, some pendingToken) else (error, none))

/-- The acquisition from the configure callback on. -/
def configureLease (startMs : UInt64) : Pmu (ℤ × Option UInt64) := do
  let result ← callConfigure
  if result ≠ 0 then
    noteBackendError (backendFailure result)
    abandonAcquire (backendFailure result)
  else
    let session ← Prog.read (·.session)
    let (result, configuredMs) ← callNowMs session.lease.backend
    if result ≠ 0 then
      noteBackendError (backendFailure result)
      abandonAcquire (backendFailure result)
    else if configuredMs < startMs ∨ session.deadlineMs ≤ configuredMs then
      noteBackendError 0
      abandonAcquire (if configuredMs < startMs then errorClock else errorExpired)
    else
      onSession fun session => { session with state := .active }
      let token ← Prog.read (·.session.leaseToken)
      pure (0, some token)

/-- The snapshot of an idle PMU that the session can restore. -/
def snapshotValid (original : Snapshot) : Bool :=
  decide (original.eventCounterCount = UInt32.ofNat physicalEventCounters ∧
    original.rawPmcr &&& pmcrResetBits = 0 ∧
    (original.rawPmcr >>> 11) &&& 0x1f = original.eventCounterCount ∧
    original.rawPmselr < original.eventCounterCount)

/-- The acquisition of an empty session. -/
def acquireEmpty (owner : SessionOwner) (request : SessionRequest) (backend : Backend) :
    Pmu (ℤ × Option UInt64) := do
  let (result, startMs) ← callNowMs backend
  if result ≠ 0 then pure (backendFailure result, none)
  else
    let (result, original) ← callSnapshot backend owner.coreId
    if result ≠ 0 then pure (backendFailure result, none)
    else if snapshotValid original = false then pure (errorInvalid, none)
    else
      match makeConfiguration request original with
      | .error code => pure (backendFailure code, none)
      | .ok configuration =>
        let deadlineMs := saturatingDeadline startMs request.leaseMs
        let (result, beforeConfigureMs) ← callNowMs backend
        if result ≠ 0 then pure (backendFailure result, none)
        else if beforeConfigureMs < startMs then pure (errorClock, none)
        else if deadlineMs ≤ beforeConfigureMs then pure (errorExpired, none)
        else
          onSession fun session => { session with
            lease := ⟨owner, configuration, original, backend⟩
            acquiredMs := startMs
            deadlineMs := deadlineMs
            lastBackendError := 0 }
          takeLeaseToken
          onSession fun session => { session with state := .restorePending }
          configureLease startMs

/-- A missing argument stands for a null pointer, `storage` for the caller's
place for the token. -/
def vdPmuSessionAcquire (owner : Option SessionOwner) (request : Option SessionRequest)
    (backend : Option Backend) (storage : Bool) : Pmu (ℤ × Option UInt64) := do
  let session ← Prog.read (·.session)
  match owner, request, backend with
  | some owner, some request, some backend =>
    if session.initializationCookie ≠ sessionCookie ∨ ownerValid owner = false ∨
        requestValid request = false ∨ backendValid backend = false ∨ storage = false then
      pure (errorInvalid, none)
    else if session.state = .restorePending then pure (errorRestoreRequired, none)
    else if session.state ≠ .empty then pure (errorBusy, none)
    else acquireEmpty owner request backend
  | _, _, _ => pure (errorInvalid, none)

/-- The result of a read that restored the lease. -/
def readFails (error : ℤ) : Pmu (ℤ × Option Reading) := do
  let result ← restoreAfter error
  pure (result, none)

def readingOf (session : Session) (values : CounterValues) (completedMs : UInt64) : Reading where
  timestampMs := completedMs
  leaseToken := session.leaseToken
  flags := session.lease.configuration.flags
  eventCount := session.lease.configuration.eventCount
  cycles := if session.lease.configuration.flags &&& flagCycles ≠ 0 then values.cycles else 0
  events i := if UInt32.ofNat i < session.lease.configuration.eventCount then
    (session.lease.configuration.events i, values.events i) else (zeroMetadata, 0)

/-- The read of an active session by its owner. -/
def readActive (session : Session) : Pmu (ℤ × Option Reading) := do
  let (result, nowMs) ← callNowMs session.lease.backend
  if result ≠ 0 then
    noteBackendError (backendFailure result)
    readFails (backendFailure result)
  else if nowMs < session.acquiredMs then readFails errorClock
  else if session.deadlineMs ≤ nowMs then readFails errorExpired
  else
    let (result, values) ← callRead
    if result ≠ 0 then
      noteBackendError (backendFailure result)
      readFails (backendFailure result)
    else
      let (result, completedMs) ← callNowMs session.lease.backend
      if result ≠ 0 then
        noteBackendError (backendFailure result)
        readFails (backendFailure result)
      else if completedMs < nowMs ∨ completedMs < session.acquiredMs then readFails errorClock
      else if session.deadlineMs ≤ completedMs then readFails errorExpired
      else pure (0, some (readingOf session values completedMs))

def vdPmuSessionRead (owner : Option SessionOwner) (leaseToken : UInt64) (storage : Bool) :
    Pmu (ℤ × Option Reading) :=
  if storage = false then pure (errorInvalid, none)
  else do
    let session ← Prog.read (·.session)
    let result := ownerAndTokenValid session owner leaseToken
    if result < 0 then pure (result, none)
    else if session.state = .restorePending then pure (errorRestoreRequired, none)
    else if session.state ≠ .active then pure (errorState, none)
    else readActive session

def vdPmuSessionRestore (owner : Option SessionOwner) (leaseToken : UInt64) : Pmu ℤ := do
  let session ← Prog.read (·.session)
  let result := ownerAndTokenValid session owner leaseToken
  if result < 0 then pure result else restoreExact

def vdPmuSessionWatchdog : Pmu ℤ := do
  let session ← Prog.read (·.session)
  if session.initializationCookie ≠ sessionCookie then pure errorInvalid
  else if session.state = .empty then pure 0
  else if session.state = .restorePending then restoreAfter watchdogRestored
  else if session.state ≠ .active then pure errorState
  else
    let (result, nowMs) ← callNowMs session.lease.backend
    if result ≠ 0 then
      noteBackendError (backendFailure result)
      restoreAfter (backendFailure result)
    else if nowMs < session.acquiredMs then restoreAfter errorClock
    else if nowMs < session.deadlineMs then pure 0
    else restoreAfter watchdogRestored

/-- The calls on one session object; its owner serialises them. -/
inductive PmuCall where
  | init
  | acquire (owner : Option SessionOwner) (request : Option SessionRequest)
      (backend : Option Backend) (storage : Bool)
  | read (owner : Option SessionOwner) (leaseToken : UInt64) (storage : Bool)
  | restore (owner : Option SessionOwner) (leaseToken : UInt64)
  | watchdog

def PmuCall.program : PmuCall → Pmu Unit
  | .init => vdPmuSessionInit
  | .acquire owner request backend storage => do
    let _ ← vdPmuSessionAcquire owner request backend storage
  | .read owner leaseToken storage => do
    let _ ← vdPmuSessionRead owner leaseToken storage
  | .restore owner leaseToken => do
    let _ ← vdPmuSessionRestore owner leaseToken
  | .watchdog => do
    let _ ← vdPmuSessionWatchdog

end VitaDebugger.PmuSession
