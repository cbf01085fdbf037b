import VitaDebugger.StreamReader

/-! The writer of version 2 of the profiler's trace stream over a sink that may fail. Beside
the fields of `struct vp_stream_writer_v2` the state keeps a history: the number of buffers
given to the sink, the bytes it has taken, the chunks written in full, and the events taken
from the ring. -/

namespace VitaDebugger.StreamWriter
open LittleEndian ProfilerEvent NameDictionary StreamReader

inductive WriterState where
  | ready
  | streaming
  | closed
  | failed
  deriving DecidableEq

structure Writer where
  sinkCalls : ℕ
  names : Dictionary
  dictionaryBufferCapacity : ℕ
  bytesWritten : UInt64
  eventsWritten : UInt64
  eventsLostToSink : UInt32
  state : WriterState
  transportEventsLost : UInt32
  chunkSequence : UInt32
  threadMetadataKeys : List UInt64
  moduleMetadataKeys : List UInt64
  sunk : Bytes
  chunks : List ChunkView
  drained : List Event

/-- The part of `struct vp_stats` that the writer reads. -/
structure RingStats where
  accepted : UInt32
  dropped : UInt32
  pending : UInt32

structure Session where
  sessionId : UInt64
  processIdentity : UInt64
  processId : UInt32
  flags : UInt32
  timerSource : Option (ℕ → UInt8)
  timerUnit : Option (ℕ → UInt8)

structure Thread where
  identity : UInt64
  threadId : UInt32
  generation : UInt32
  nameId : UInt32
  flags : UInt32

structure Module where
  moduleId : UInt32
  generation : UInt32
  addressStart : UInt32
  addressEnd : UInt32
  nameId : UInt32
  flags : UInt32

def vpStreamWriterInitV2 (names : Dictionary) (dictionaryBufferCapacity : ℕ)
    (ring : Except VpError RingStats) : Except VpError Writer :=
  match ring with
  | .error e => .error e
  | .ok _ =>
    if names.sealed = false then .error .sealed
    else match vpNameDictionaryWireSize names with
      | .error e => .error e
      | .ok required =>
        if dictionaryBufferCapacity < required then .error .bufferTooSmall
        else .ok ⟨0, names, dictionaryBufferCapacity, 0, 0, 0, .ready, 0, 0, [], [], [], [], []⟩

def textLengthLoop (text : ℕ → UInt8) (maximum : ℕ) : ℕ → ℕ → ℕ
  | 0, length => length
  | fuel + 1, length =>
    if length ≤ maximum ∧ text length ≠ 0 then textLengthLoop text maximum fuel (length + 1)
    else length

def vpStreamBoundedTextLength (text : Option (ℕ → UInt8)) (maximum : ℕ) : ℕ :=
  match text with
  | none => 0
  | some text => textLengthLoop text maximum (maximum + 1) 0

/-- The first `length` bytes of a text. -/
def textBytes (text : Option (ℕ → UInt8)) (length : ℕ) : Bytes :=
  match text with
  | none => []
  | some text => (List.range length).map text

/-- A field of fixed size that starts with `bytes`. -/
def padded (size : ℕ) (bytes : Bytes) : Bytes :=
  bytes ++ List.replicate (size - bytes.length) 0

def chunkHeader (type : ChunkType) (sequence : UInt32) (payload : Bytes) : Bytes :=
  writeU32Le chunkMagic ++ (writeU16Le streamVersion ++ (writeU16Le (.ofNat chunkHeaderSize) ++
    (writeU16Le type.code ++ (writeU16Le 0 ++ (writeU32Le (.ofNat payload.length) ++
      (writeU32Le sequence ++ (writeU32Le (vpStreamCrc32 payload) ++ writeU64Le 0)))))))

def threadPayload (thread : Thread) : Bytes :=
  writeU64Le thread.identity ++ (writeU32Le thread.threadId ++
    (writeU32Le thread.generation ++ (writeU32Le thread.nameId ++
      (writeU32Le thread.flags ++ writeU64Le 0))))

def modulePayload (module : Module) : Bytes :=
  writeU32Le module.moduleId ++ (writeU32Le module.generation ++
    (writeU32Le module.addressStart ++ (writeU32Le module.addressEnd ++
      (writeU32Le module.nameId ++ (writeU32Le module.flags ++ writeU64Le 0)))))

namespace Writer
variable (accepts : ℕ → Bool) (w : Writer)

/-- Hand bytes to the sink, which takes the `n`th buffer it is given if `accepts n`. -/
def write (data : Bytes) : Except VpError Unit × Writer :=
  if accepts w.sinkCalls then
    (.ok (), { w with
      sinkCalls := w.sinkCalls + 1
      sunk := w.sunk ++ data
      bytesWritten := w.bytesWritten + .ofNat data.length })
  else (.error .io, { w with sinkCalls := w.sinkCalls + 1, state := .failed })

def writePayload (payload : Bytes) : Except VpError Unit × Writer :=
  if payload.length ≠ 0 then w.write accepts payload else (.ok (), w)

def writeChunk (type : ChunkType) (payload : Bytes) : Except VpError Unit × Writer :=
  if maxChunkPayload < payload.length then (.error .invalidArgument, w)
  else match w.write accepts (chunkHeader type w.chunkSequence payload) with
    | (.error e, w) => (.error e, w)
    | (.ok (), w) =>
      match w.writePayload accepts payload with
      | (.error e, w) => (.error e, w)
      | (.ok (), w) =>
        (.ok (), { w with
          chunkSequence := w.chunkSequence + 1
          chunks := w.chunks ++ [⟨type, w.chunkSequence, payload⟩] })

def encodeStats (ring : RingStats) (bytesWritten : UInt64) : Bytes :=
  writeU32Le ring.accepted ++ (writeU32Le ring.dropped ++ (writeU32Le w.transportEventsLost ++
    (writeU32Le w.eventsLostToSink ++ (writeU64Le w.eventsWritten ++ writeU64Le bytesWritten))))

def sessionPayload (streamStartUs : UInt64) (session : Session) (sourceLength unitLength : ℕ) :
    Bytes :=
  writeU64Le session.sessionId ++ (writeU64Le session.processIdentity ++
    (writeU64Le streamStartUs ++ (writeU32Le session.processId ++ (writeU32Le session.flags ++
      (writeU16Le (.ofNat sourceLength) ++ (writeU16Le (.ofNat unitLength) ++ (writeU32Le 0 ++
        (padded timerSourceMax (textBytes session.timerSource sourceLength) ++
          padded timerUnitMax (textBytes session.timerUnit unitLength)))))))))

/-- The chunks of a session whose metadata was found valid. -/
def writeSession (payload dictionary : Bytes) : Except VpError Unit × Writer :=
  match w.writeChunk accepts .session payload with
  | (.error e, w) => (.error e, w)
  | (.ok (), w) =>
    match w.writeChunk accepts .dictionary dictionary with
    | (.error e, w) => (.error e, w)
    | (.ok (), w) => (.ok (), { w with state := .streaming })

def beginV2 (streamStartUs : UInt64) (session : Option Session) : Except VpError Unit × Writer :=
  if w.state ≠ .ready then (.error .state, w)
  else match session with
    | none => (.error .invalidArgument, w)
    | some session =>
      if session.sessionId = 0 ∨ session.flags &&& ~~~sessionFlagsAll ≠ 0 then
        (.error .invalidArgument, w)
      else
        let sourceLength := vpStreamBoundedTextLength session.timerSource timerSourceMax
        let unitLength := vpStreamBoundedTextLength session.timerUnit timerUnitMax
        if timerSourceMax < sourceLength ∨ timerUnitMax < unitLength ∨
            (decide (session.flags &&& sessionTimerSource ≠ 0) ≠ decide (sourceLength ≠ 0)) ∨
            (decide (session.flags &&& sessionTimerUnit ≠ 0) ≠ decide (unitLength ≠ 0)) ∨
            (session.flags &&& sessionProcessId = 0 ∧ session.processId ≠ 0) ∨
            (session.flags &&& sessionProcessIdentity = 0 ∧ session.processIdentity ≠ 0) then
          (.error .invalidArgument, w)
        else match vpEncodeNameDictionaryLe w.names w.dictionaryBufferCapacity with
          | .error e => (.error e, w)
          | .ok dictionary =>
            if maxChunkPayload < dictionary.length then (.error .capacity, w)
            else w.writeSession accepts
              (sessionPayload streamStartUs session sourceLength unitLength) dictionary

/-- The refusal of a writer that is not streaming. -/
def refusal : Option VpError :=
  if w.state = .failed then some .io
  else if w.state ≠ .streaming then some .state
  else none

def writeThreadV2 (thread : Option Thread) : Except VpError Unit × Writer :=
  match w.refusal with
  | some e => (.error e, w)
  | none =>
    match thread with
    | none => (.error .invalidArgument, w)
    | some thread =>
      if thread.threadId = 0 ∨ thread.flags &&& ~~~threadFlagsAll ≠ 0 ∨
          (decide (thread.flags &&& threadIdentity ≠ 0) ≠ decide (thread.identity ≠ 0)) then
        (.error .invalidArgument, w)
      else
        let key := metadataKey thread.threadId thread.generation
        if key ∈ w.threadMetadataKeys then (.error .invalidArgument, w)
        else if w.threadMetadataKeys.length = maxThreadMetadata then (.error .capacity, w)
        else match w.writeChunk accepts .thread (threadPayload thread) with
          | (.error e, w) => (.error e, w)
          | (.ok (), w) =>
            match vpStreamAddMetadataKey w.threadMetadataKeys maxThreadMetadata key with
            | .error e => (.error e, w)
            | .ok threadMetadataKeys => (.ok (), { w with threadMetadataKeys })

def writeModuleV2 (module : Option Module) : Except VpError Unit × Writer :=
  match w.refusal with
  | some e => (.error e, w)
  | none =>
    match module with
    | none => (.error .invalidArgument, w)
    | some module =>
      if module.moduleId = 0 ∨ module.addressEnd ≤ module.addressStart ∨
          module.flags &&& ~~~moduleFlagsAll ≠ 0 ∨
          module.flags &&& (moduleArm ||| moduleThumb) = 0 then (.error .invalidArgument, w)
      else
        let key := metadataKey module.moduleId module.generation
        if key ∈ w.moduleMetadataKeys then (.error .invalidArgument, w)
        else if w.moduleMetadataKeys.length = maxModuleMetadata then (.error .capacity, w)
        else match w.writeChunk accepts .module (modulePayload module) with
          | (.error e, w) => (.error e, w)
          | (.ok (), w) =>
            match vpStreamAddMetadataKey w.moduleMetadataKeys maxModuleMetadata key with
            | .error e => (.error e, w)
            | .ok moduleMetadataKeys => (.ok (), { w with moduleMetadataKeys })

def writeStatsV2 (ring : Except VpError RingStats) : Except VpError Unit × Writer :=
  match w.refusal with
  | some e => (.error e, w)
  | none =>
    match ring with
    | .error e => (.error e, w)
    | .ok ring => w.writeChunk accepts .stats (w.encodeStats ring w.bytesWritten)

def setTransportLossV2 (eventsLost : UInt32) : Except VpError Unit × Writer :=
  match w.refusal with
  | some e => (.error e, w)
  | none => (.ok (), { w with transportEventsLost := eventsLost })

/-- The events of one EVENTS chunk, which have left the ring. -/
def writeEvents (events : List Event) : Except VpError ℕ × Writer :=
  if events.length ≠ 0 then
    match w.writeChunk accepts .events (events.flatMap vpEncodeEventLe) with
    | (.error e, w) =>
      (.error e, { w with eventsLostToSink := w.eventsLostToSink + .ofNat events.length })
    | (.ok (), w) =>
      (.ok events.length, { w with eventsWritten := w.eventsWritten + .ofNat events.length })
  else (.ok 0, w)

/-- `available` are the events that `vp_drain` would hand out one after the other; `report`
says whether the caller passes a place for the count. -/
def drainV2 (available : List Event) (maxEvents : ℕ) (report : Bool) : Except VpError ℕ × Writer :=
  if report = false then (.error .invalidArgument, w)
  else match w.refusal with
    | some e => (.error e, w)
    | none =>
      let capacity := min (w.dictionaryBufferCapacity / wireEventSize)
        (maxChunkPayload / wireEventSize)
      let limit := if maxEvents < capacity then maxEvents else capacity
      let events := available.take limit
      { w with drained := w.drained ++ events }.writeEvents accepts events

def closeV2 (ring : Except VpError RingStats) : Except VpError Unit × Writer :=
  match w.refusal with
  | some e => (.error e, w)
  | none =>
    match ring with
    | .error e => (.error e, w)
    | .ok ring =>
      if ring.pending ≠ 0 then (.error .busy, w)
      else match w.writeChunk accepts .stats (w.encodeStats ring w.bytesWritten) with
        | (.error e, w) => (.error e, w)
        | (.ok (), w) =>
          if 0xffffffffffffffff - .ofNat (chunkHeaderSize + statsPayloadSize) < w.bytesWritten then
            (.error .capacity, w)
          else match w.writeChunk accepts .endStream (w.encodeStats ring
              (w.bytesWritten + .ofNat chunkHeaderSize + .ofNat statsPayloadSize)) with
            | (.error e, w) => (.error e, w)
            | (.ok (), w) => (.ok (), { w with state := .closed })

end Writer

inductive WriterCall where
  | beginV2 (streamStartUs : UInt64) (session : Option Session)
  | writeThreadV2 (thread : Option Thread)
  | writeModuleV2 (module : Option Module)
  | writeStatsV2 (ring : Except VpError RingStats)
  | setTransportLossV2 (eventsLost : UInt32)
  | drainV2 (available : List Event) (maxEvents : ℕ) (report : Bool)
  | closeV2 (ring : Except VpError RingStats)

def Writer.call (accepts : ℕ → Bool) (w : Writer) : WriterCall → Except VpError Unit × Writer
  | .beginV2 streamStartUs session => w.beginV2 accepts streamStartUs session
  | .writeThreadV2 thread => w.writeThreadV2 accepts thread
  | .writeModuleV2 module => w.writeModuleV2 accepts module
  | .writeStatsV2 ring => w.writeStatsV2 accepts ring
  | .setTransportLossV2 eventsLost => w.setTransportLossV2 eventsLost
  | .drainV2 available maxEvents report =>
    let result := w.drainV2 accepts available maxEvents report
    (result.1.map fun _ => (), result.2)
  | .closeV2 ring => w.closeV2 accepts ring

/-- The outcomes of a sequence of calls and the writer after it. -/
def Writer.run (accepts : ℕ → Bool) (w : Writer) :
    List WriterCall → List (Except VpError Unit) × Writer
  | [] => ([], w)
  | call :: calls =>
    let first := w.call accepts call
    let rest := first.2.run accepts calls
    (first.1 :: rest.1, rest.2)

end VitaDebugger.StreamWriter
