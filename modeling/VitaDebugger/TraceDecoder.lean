import Mathlib.Data.Finset.Insert
import VitaDebugger.LittleEndian
import VitaDebugger.ReflectedCrc
import VitaDebugger.ScanLoop

/-! The receiver's decoder of profiler captures, `IncrementalTraceDecoder` of the Python
tools: version 2 streams chunk by chunk as bytes arrive, version 1 captures at the end. -/

namespace VitaDebugger.TraceDecoder
open LittleEndian ScanLoop

abbrev wireMagic : ℕ := 0x46525056
abbrev wireVersion : ℕ := 1
abbrev wireHeaderSize : ℕ := 32
abbrev wireEventSize : ℕ := 32
abbrev wireFlags : ℕ := 1
abbrev wireClockHz : ℕ := 1000000

abbrev chunkMagic : ℕ := 0x32435056
abbrev streamVersion : ℕ := 2
abbrev chunkHeaderSize : ℕ := 32
abbrev sessionPayloadSize : ℕ := 96
abbrev threadPayloadSize : ℕ := 32
abbrev modulePayloadSize : ℕ := 32
abbrev statsPayloadSize : ℕ := 32
abbrev timerSourceMax : ℕ := 40
abbrev timerUnitMax : ℕ := 16
abbrev maxChunkPayload : ℕ := 2 * 1024 * 1024
abbrev maxThreadMetadata : ℕ := 64
abbrev maxModuleMetadata : ℕ := 64

abbrev chunkSession : ℕ := 1
abbrev chunkDictionary : ℕ := 2
abbrev chunkEvents : ℕ := 3
abbrev chunkThread : ℕ := 4
abbrev chunkModule : ℕ := 5
abbrev chunkStats : ℕ := 6
abbrev chunkEnd : ℕ := 7

abbrev sessionProcessId : ℕ := 1
abbrev sessionProcessIdentity : ℕ := 2
abbrev sessionTimerSource : ℕ := 4
abbrev sessionTimerUnit : ℕ := 8
abbrev sessionFlagsAll : ℕ := 15
abbrev threadIdentity : ℕ := 1
abbrev moduleExecutable : ℕ := 1
abbrev moduleArm : ℕ := 2
abbrev moduleThumb : ℕ := 4
abbrev moduleFlagsAll : ℕ := 7

abbrev nameMagic : ℕ := 0x4d4e5056
abbrev nameVersion : ℕ := 1
abbrev nameHeaderSize : ℕ := 24
abbrev nameEntryHeaderSize : ℕ := 8
abbrev nameFlags : ℕ := 1
abbrev nameFlagBuiltin : ℕ := 1
abbrev nameMaxLength : ℕ := 255
abbrev nameMaxUserEntries : ℕ := 4096

abbrev defaultMaxBytes : ℕ := 16 * 1024 * 1024
abbrev maxDecodedEvents : ℕ := 262144

def builtinNames : List (ℕ × String) :=
  [(0xfff00001, "vita.memory.free_user_bytes"),
    (0xfff00002, "vita.memory.free_cdram_bytes"),
    (0xfff00003, "vita.memory.free_phycont_bytes"),
    (0xfff00004, "vita.process.time_us"),
    (0xfff00005, "vita.thread.run_clocks"),
    (0xfff00006, "vita.thread.stack_free_bytes"),
    (0xfff00007, "vita.thread.preemptions"),
    (0xfff00008, "vita.thread.interrupt_preemptions")]

inductive TraceError where
  | valueError (message : String)
  | traceFormatError (message : String)
  deriving DecidableEq

def refuse {α : Type} (message : String) : Except TraceError α := .error (.traceFormatError message)

/-- The general categories of characters that `_decode_safe_text` tells apart. -/
inductive Category where
  | Cc | Cf | Cs | Zl | Zp | other
  deriving DecidableEq

/-- The bidirectional classes that `_UNSAFE_BIDI_CLASSES` holds. -/
inductive Bidirectional where
  | BN | LRE | RLE | LRO | RLO | PDF | LRI | RLI | FSI | PDI | other
  deriving DecidableEq

/-- The database of the module `unicodedata`. -/
structure UnicodeData where
  category : Char → Category
  bidirectional : Char → Bidirectional

variable (unicode : UnicodeData)

def UnicodeData.safe (character : Char) : Bool :=
  unicode.category character = .other && unicode.bidirectional character = .other

/-- The text of UTF-8 bytes. -/
def decodeUtf8 (rawText : Bytes) : Option String := String.fromUTF8? ⟨rawText.toArray⟩

def decodeSafeText (rawText : Bytes) (label : String) : Except TraceError String :=
  match decodeUtf8 rawText with
  | none => refuse s!"{label} is not valid UTF-8"
  | some name =>
    if name.toList.all unicode.safe then .ok name
    else refuse s!"{label} contains unsafe display controls"

def decodeSafeName (rawName : Bytes) (index : ℕ) : Except TraceError String :=
  decodeSafeText unicode rawName s!"VPNM entry {index}"

/-- `value & ~mask` of the unbounded integers. -/
def andNot (value mask : ℕ) : ℕ := value - (value &&& mask)

def hex8 (value : ℕ) : String :=
  let digits := Nat.toDigits 16 value
  "0x" ++ String.ofList (List.replicate (8 - digits.length) '0' ++ digits)

def fnv1aNameId (rawName : Bytes) : ℕ :=
  if rawName = [] then 0
  else
    let value := rawName.foldl
      (fun value byte => ((value ^^^ byte.toNat) * 16777619) &&& 0xffffffff) 2166136261
    if value = 0 then 1 else value

structure NameEntry where
  nameId : ℕ
  name : String
  flags : ℕ
  deriving DecidableEq

/-- What the loop over the entries of a dictionary carries along. -/
structure EntryLoop where
  offset : ℕ
  previousId : ℕ
  seenBuiltins : Finset ℕ
  result : List NameEntry

/-- A built-in name stands under its own identifier, any other under its hash. -/
def checkName (nameId entryFlags : ℕ) (rawName : Bytes) (seenBuiltins : Finset ℕ) :
    Except TraceError (Finset ℕ) :=
  let shown := hex8 nameId
  match builtinNames.lookup nameId with
  | some builtinName =>
    if entryFlags ≠ nameFlagBuiltin ∨ rawName ≠ builtinName.toUTF8.data.toList then
      refuse s!"VPNM built-in {shown} was redefined"
    else .ok (insert nameId seenBuiltins)
  | none =>
    if entryFlags ≠ 0 ∨ fnv1aNameId rawName ≠ nameId then
      refuse s!"VPNM application name {shown} failed validation"
    else .ok seenBuiltins

def decodeEntry (data : Bytes) (totalSize index : ℕ) (s : EntryLoop) :
    Except TraceError EntryLoop :=
  if totalSize - s.offset < nameEntryHeaderSize then refuse s!"truncated VPNM entry {index}"
  else
    let nameId := number data s.offset 4
    let nameLength := number data (s.offset + 4) 2
    let entryFlags := number data (s.offset + 6) 2
    let paddedLength := andNot (nameLength + 3) 3
    let text := s.offset + nameEntryHeaderSize
    let stop := text + paddedLength
    if nameId = 0 ∨ ¬(1 ≤ nameLength ∧ nameLength ≤ nameMaxLength) then
      refuse s!"invalid VPNM entry {index}"
    else if index ≠ 0 ∧ nameId ≤ s.previousId then refuse "VPNM IDs are not strictly increasing"
    else if totalSize < stop then refuse s!"truncated VPNM name at entry {index}"
    else
      let rawName := (data.drop text).take nameLength
      let padding := (data.drop (text + nameLength)).take (paddedLength - nameLength)
      if (0 : UInt8) ∈ rawName then refuse s!"VPNM entry {index} contains NUL"
      else if padding.any (· ≠ 0) then refuse s!"VPNM entry {index} has nonzero padding"
      else match checkName nameId entryFlags rawName s.seenBuiltins with
        | .error e => .error e
        | .ok seenBuiltins =>
          match decodeSafeName unicode rawName index with
          | .error e => .error e
          | .ok name => .ok ⟨stop, nameId, seenBuiltins, s.result ++ [⟨nameId, name, entryFlags⟩]⟩

def decodeEntries (data : Bytes) (totalSize : ℕ) : ℕ → ℕ → EntryLoop → Except TraceError EntryLoop
  | 0, _, s => .ok s
  | remaining + 1, index, s =>
    match decodeEntry unicode data totalSize index s with
    | .error e => .error e
    | .ok s => decodeEntries data totalSize remaining (index + 1) s

/-- The names of a dictionary, whose identifiers increase, and its size. -/
def decodeDictionary (data : Bytes) : Except TraceError (List NameEntry × ℕ) :=
  if data.length < nameHeaderSize then refuse "truncated VPNM dictionary header"
  else
    let version := number data 4 2
    let entryCount := number data 12 4
    let totalSize := number data 16 4
    let builtinCount := builtinNames.length
    if number data 0 4 ≠ nameMagic then refuse "bad VPNM dictionary magic"
    else if version ≠ nameVersion then refuse s!"unsupported VPNM version {version}"
    else if number data 6 2 ≠ nameHeaderSize ∨ number data 8 2 ≠ nameEntryHeaderSize ∨
        number data 10 2 ≠ nameFlags then refuse "unsupported VPNM header or flags"
    else if number data 20 4 ≠ 0 then refuse "VPNM reserved field is not zero"
    else if ¬(builtinCount ≤ entryCount ∧ entryCount ≤ nameMaxUserEntries + builtinCount) then
      refuse "VPNM entry count is outside the supported bound"
    else if ¬(nameHeaderSize ≤ totalSize ∧ totalSize ≤ data.length) then
      refuse "VPNM total size exceeds available bytes"
    else if (totalSize - nameHeaderSize) / 12 < entryCount then
      refuse "VPNM entry count cannot fit in its block"
    else match decodeEntries unicode data totalSize entryCount 0 ⟨nameHeaderSize, 0, ∅, []⟩ with
      | .error e => .error e
      | .ok s =>
        if s.offset ≠ totalSize then refuse "VPNM block has unaccounted bytes"
        else if s.seenBuiltins ≠ (builtinNames.map Prod.fst).toFinset then
          let missing := (builtinNames.map Prod.fst).filter (· ∉ s.seenBuiltins)
          refuse ("VPNM block is missing built-ins: " ++ ", ".intercalate (missing.map hex8))
        else .ok (s.result, totalSize)

structure TraceHeader where
  version : ℕ
  flags : ℕ
  clockHz : ℕ
  streamStartUs : ℕ
  deriving DecidableEq

structure SessionMetadata where
  sessionId : ℕ
  processId : Option ℕ
  processIdentity : Option ℕ
  timerSource : Option String
  timerUnit : Option String
  deriving DecidableEq

structure ThreadIdentity where
  threadId : ℕ
  generation : ℕ
  identity : Option ℕ
  nameId : ℕ
  firstEventIndex : ℕ
  deriving DecidableEq

structure ModuleRange where
  moduleId : ℕ
  generation : ℕ
  addressStart : ℕ
  addressEnd : ℕ
  nameId : ℕ
  executable : Bool
  arm : Bool
  thumb : Bool
  deriving DecidableEq

structure LossCounters where
  producerAccepted : ℕ
  producerDropped : ℕ
  transportLost : ℕ
  sinkLost : ℕ
  eventsWritten : ℕ
  bytesWritten : ℕ
  deriving DecidableEq

structure TraceEvent where
  index : ℕ
  timestampUs : ℕ
  value : ℤ
  nameId : ℕ
  threadId : ℕ
  correlationId : ℕ
  eventType : ℕ
  flags : ℕ
  deriving DecidableEq

structure TraceCapture where
  header : TraceHeader
  names : List NameEntry
  events : List TraceEvent
  dictionarySize : ℕ
  rawSize : ℕ
  session : Option SessionMetadata
  threadIdentities : List ThreadIdentity
  moduleRanges : List ModuleRange
  loss : Option LossCounters
  complete : Bool

/-- The eight bytes of a `q` field, a number in two's complement. -/
def signed (input : Bytes) (offset : ℕ) : ℤ :=
  let raw := number input offset 8
  if raw < 2 ^ 63 then raw else (raw : ℤ) - 2 ^ 64

/-- The fields of a `WIRE_EVENT` at an offset. -/
def unpackEvent (data : Bytes) (offset index : ℕ) : TraceEvent :=
  { index
    timestampUs := number data offset 8
    value := signed data (offset + 8)
    nameId := number data (offset + 16) 4
    threadId := number data (offset + 20) 4
    correlationId := number data (offset + 24) 4
    eventType := number data (offset + 28) 2
    flags := number data (offset + 30) 2 }

def decodeHeader (data : Bytes) (offset : ℕ) : Except TraceError TraceHeader :=
  if data.length - offset < wireHeaderSize then refuse "truncated VPRF stream header"
  else
    let version := number data (offset + 4) 2
    let flags := number data (offset + 10) 2
    let clockHz := number data (offset + 12) 4
    if number data offset 4 ≠ wireMagic then refuse "bad VPRF stream magic"
    else if version ≠ wireVersion then refuse s!"unsupported VPRF version {version}"
    else if number data (offset + 6) 2 ≠ wireHeaderSize ∨
      number data (offset + 8) 2 ≠ wireEventSize ∨
        flags ≠ wireFlags ∨ clockHz ≠ wireClockHz then
      refuse "unsupported VPRF sizes, flags, or clock"
    else if number data (offset + 24) 8 ≠ 0 then refuse "VPRF reserved field is not zero"
    else .ok ⟨version, flags, clockHz, number data (offset + 16) 8⟩

/-- The events of a version 1 capture that follow its header. -/
def decodeV1Events (data : Bytes) (names : List NameEntry) (dictionarySize : ℕ) :
    Except TraceError TraceCapture :=
  match decodeHeader data dictionarySize with
  | .error e => .error e
  | .ok header =>
    let eventOffset := dictionarySize + wireHeaderSize
    let payloadSize := data.length - eventOffset
    if payloadSize % wireEventSize ≠ 0 then refuse "VPRF stream ends with a partial event"
    else
      let eventCount := payloadSize / wireEventSize
      if maxDecodedEvents < eventCount then
        refuse s!"VPRF stream contains {eventCount} events; decoded limit is {maxDecodedEvents}"
      else
        let events := (List.range eventCount).map fun index =>
          unpackEvent data (eventOffset + index * wireEventSize) index
        .ok ⟨header, names, events, dictionarySize, data.length, none, [], [], none, true⟩

def decodeV1Capture (data : Bytes) : Except TraceError TraceCapture :=
  if data.length < 4 then refuse "capture is too short to contain a magic"
  else if number data 0 4 = nameMagic then
    match decodeDictionary unicode data with
    | .error e => .error e
    | .ok (names, dictionarySize) => decodeV1Events data names dictionarySize
  else if number data 0 4 ≠ wireMagic then refuse "capture must begin with VPNM or VPRF"
  else decodeV1Events data [] 0

inductive Mode where
  | v1
  | v2
  deriving DecidableEq

/-- The attributes of `IncrementalTraceDecoder`; its sets of keys are lists without repetitions. -/
structure Decoder where
  maxBytes : ℕ
  maxEvents : ℕ
  buffer : Bytes
  v1Data : Bytes
  mode : Option Mode
  rawSize : ℕ
  processedSize : ℕ
  currentChunkEnd : ℕ
  nextSequence : ℕ
  session : Option SessionMetadata
  header : Option TraceHeader
  names : List NameEntry
  dictionarySize : ℕ
  events : List TraceEvent
  threads : List ThreadIdentity
  modules : List ModuleRange
  threadKeys : List (ℕ × ℕ)
  moduleKeys : List (ℕ × ℕ)
  loss : Option LossCounters
  endSeen : Bool
  complete : Bool
  finished : Bool

def incrementalTraceDecoder (maxBytes maxEvents : ℕ) : Except TraceError Decoder :=
  if maxBytes < wireHeaderSize then .error (.valueError "invalid incremental decoder bounds")
  else .ok ⟨maxBytes, maxEvents, [], [], none, 0, 0, 0, 0, none, none, [], 0, [], [], [], [], [],
    none, false, false, false⟩

/-- `zlib.crc32`, a byte at a time from its table. -/
def crc32 (data : Bytes) : ℕ :=
  (~~~data.foldl (ReflectedCrc.tableStep (ReflectedCrc.table 0xedb88320)) 0xffffffff).toNat

namespace Decoder

/-- The text of a timer field that the flags announce. -/
def timerText (present : Bool) (rawText : Bytes) (label : String) :
    Except TraceError (Option String) :=
  if present then (decodeSafeText unicode rawText label).map some else .ok none

def decodeV2Session (d : Decoder) (payload : Bytes) : Except TraceError Decoder :=
  if payload.length ≠ sessionPayloadSize then refuse "invalid v2 SESSION payload size"
  else
    let sessionId := number payload 0 8
    let processIdentity := number payload 8 8
    let processId := number payload 24 4
    let flags := number payload 28 4
    let sourceLength := number payload 32 2
    let unitLength := number payload 34 2
    let source := (payload.drop 40).take timerSourceMax
    let unit := (payload.drop 80).take timerUnitMax
    let hasSource := decide (flags &&& sessionTimerSource ≠ 0)
    let hasUnit := decide (flags &&& sessionTimerUnit ≠ 0)
    if sessionId = 0 ∨ andNot flags sessionFlagsAll ≠ 0 ∨ number payload 36 4 ≠ 0 then
      refuse "invalid v2 SESSION metadata"
    else if timerSourceMax < sourceLength ∨ timerUnitMax < unitLength then
      refuse "v2 timer metadata exceeds its bound"
    else if (source.drop sourceLength).any (· ≠ 0) ∨ (unit.drop unitLength).any (· ≠ 0) then
      refuse "v2 timer metadata has nonzero padding"
    else if hasSource ≠ decide (sourceLength ≠ 0) ∨ hasUnit ≠ decide (unitLength ≠ 0) then
      refuse "v2 timer metadata flags disagree"
    else if (flags &&& sessionProcessId = 0 ∧ processId ≠ 0) ∨
        (flags &&& sessionProcessIdentity = 0 ∧ processIdentity ≠ 0) then
      refuse "v2 process metadata flags disagree"
    else match timerText unicode hasSource (source.take sourceLength) "v2 timer source" with
      | .error e => .error e
      | .ok timerSource =>
        match timerText unicode hasUnit (unit.take unitLength) "v2 timer unit" with
        | .error e => .error e
        | .ok timerUnit => .ok
          { d with
            session := some
              { sessionId
                processId := if flags &&& sessionProcessId ≠ 0 then some processId else none
                processIdentity :=
                  if flags &&& sessionProcessIdentity ≠ 0 then some processIdentity else none
                timerSource
                timerUnit }
            header := some ⟨streamVersion, wireFlags, wireClockHz, number payload 16 8⟩ }

def decodeV2Events (d : Decoder) (payload : Bytes) : Except TraceError Decoder :=
  if payload = [] ∨ payload.length % wireEventSize ≠ 0 then
    refuse "v2 EVENTS payload has a partial event"
  else
    let eventCount := payload.length / wireEventSize
    let maxEvents := d.maxEvents
    if maxEvents < d.events.length + eventCount then
      refuse s!"v2 stream exceeds decoded event limit {maxEvents}"
    else
      let events := (List.range eventCount).map fun i =>
        unpackEvent payload (i * wireEventSize) (d.events.length + i)
      .ok { d with events := d.events ++ events }

def decodeV2Thread (d : Decoder) (payload : Bytes) : Except TraceError Decoder :=
  if payload.length ≠ threadPayloadSize then refuse "invalid v2 THREAD payload size"
  else
    let identity := number payload 0 8
    let threadId := number payload 8 4
    let generation := number payload 12 4
    let nameId := number payload 16 4
    let flags := number payload 20 4
    if threadId = 0 ∨ andNot flags threadIdentity ≠ 0 ∨ number payload 24 8 ≠ 0 ∨
        decide (flags &&& threadIdentity ≠ 0) ≠ decide (identity ≠ 0) then
      refuse "invalid v2 THREAD metadata"
    else if (threadId, generation) ∈ d.threadKeys then refuse "duplicate v2 thread generation"
    else if d.threadKeys.length = maxThreadMetadata then
      refuse "v2 thread metadata exceeds safety limit"
    else .ok
      { d with
        threadKeys := d.threadKeys ++ [(threadId, generation)]
        threads := d.threads ++ [⟨threadId, generation,
          if flags &&& threadIdentity ≠ 0 then some identity else none, nameId, d.events.length⟩] }

def decodeV2Module (d : Decoder) (payload : Bytes) : Except TraceError Decoder :=
  if payload.length ≠ modulePayloadSize then refuse "invalid v2 MODULE payload size"
  else
    let moduleId := number payload 0 4
    let generation := number payload 4 4
    let start := number payload 8 4
    let stop := number payload 12 4
    let nameId := number payload 16 4
    let flags := number payload 20 4
    if moduleId = 0 ∨ stop ≤ start ∨ andNot flags moduleFlagsAll ≠ 0 ∨
        flags &&& (moduleArm ||| moduleThumb) = 0 ∨ number payload 24 8 ≠ 0 then
      refuse "invalid v2 MODULE metadata"
    else if (moduleId, generation) ∈ d.moduleKeys then refuse "duplicate v2 module generation"
    else if d.moduleKeys.length = maxModuleMetadata then
      refuse "v2 module metadata exceeds safety limit"
    else .ok
      { d with
        moduleKeys := d.moduleKeys ++ [(moduleId, generation)]
        modules := d.modules ++ [⟨moduleId, generation, start, stop, nameId,
          decide (flags &&& moduleExecutable ≠ 0), decide (flags &&& moduleArm ≠ 0),
          decide (flags &&& moduleThumb ≠ 0)⟩] }

def decodeV2Stats (payload : Bytes) : Except TraceError LossCounters :=
  if payload.length ≠ statsPayloadSize then refuse "invalid v2 STATS payload size"
  else .ok ⟨number payload 0 4, number payload 4 4, number payload 8 4, number payload 12 4,
    number payload 16 8, number payload 24 8⟩

/-- The counters of a chunk are no smaller than those of the chunk before. -/
def regressed (loss : LossCounters) : Option LossCounters → Bool
  | none => false
  | some before =>
    loss.eventsWritten < before.eventsWritten || loss.bytesWritten < before.bytesWritten

def decodeV2Counters (d : Decoder) (chunkType : ℕ) (payload : Bytes) : Except TraceError Decoder :=
  match decodeV2Stats payload with
  | .error e => .error e
  | .ok loss =>
    if regressed loss d.loss then refuse "v2 loss counters regressed"
    else if d.events.length < loss.eventsWritten then
      refuse "v2 stats claim events not present in the stream"
    else if chunkType = chunkEnd then
      if loss.eventsWritten ≠ d.events.length then
        refuse "v2 END event count does not match the stream"
      else if loss.sinkLost ≠ 0 then refuse "v2 END cannot claim a clean sink after sink loss"
      else if loss.bytesWritten ≠ d.currentChunkEnd then
        refuse "v2 END byte count does not match the stream"
      else .ok { d with loss := some loss, endSeen := true }
    else .ok { d with loss := some loss }

def decodeV2Chunk (d : Decoder) (chunkType : ℕ) (payload : Bytes) : Except TraceError Decoder :=
  if d.nextSequence = 0 then
    if chunkType ≠ chunkSession then refuse "v2 stream must begin with SESSION"
    else d.decodeV2Session unicode payload
  else if d.nextSequence = 1 then
    if chunkType ≠ chunkDictionary then refuse "v2 SESSION must be followed by DICTIONARY"
    else match decodeDictionary unicode payload with
      | .error e => .error e
      | .ok (names, dictionarySize) =>
        if dictionarySize ≠ payload.length then refuse "v2 dictionary has trailing bytes"
        else .ok { d with names, dictionarySize }
  else if chunkType = chunkSession ∨ chunkType = chunkDictionary then
    refuse "duplicate v2 lifecycle chunk"
  else if chunkType = chunkEvents then d.decodeV2Events payload
  else if chunkType = chunkThread then d.decodeV2Thread payload
  else if chunkType = chunkModule then d.decodeV2Module payload
  else if chunkType = chunkStats ∨ chunkType = chunkEnd then d.decodeV2Counters chunkType payload
  else .ok d

/-- A chunk whose header and payload have arrived and agree. -/
def takeChunk (d : Decoder) (chunkType sequence : ℕ) (payload : Bytes) :
    Except TraceError Decoder :=
  let nextSequence := d.nextSequence
  if sequence ≠ nextSequence then
    refuse s!"v2 chunk sequence {sequence} does not match {nextSequence}"
  else if d.endSeen then refuse "v2 data follows the END chunk"
  else
    let currentChunkEnd := d.processedSize + (chunkHeaderSize + payload.length)
    match { d with currentChunkEnd }.decodeV2Chunk unicode chunkType payload with
    | .error e => .error e
    | .ok d => .ok
      { d with processedSize := d.currentChunkEnd, nextSequence := d.nextSequence + 1 }

/-- One turn of the loop over the buffer, which stops when a chunk has not arrived whole. -/
def round (d : Decoder) (buffer : Bytes) : Except TraceError (Option (Decoder × Bytes)) :=
  if buffer.length < chunkHeaderSize then .ok none
  else
    let version := number buffer 4 2
    let chunkType := number buffer 8 2
    let payloadSize := number buffer 12 4
    if number buffer 0 4 ≠ chunkMagic then refuse "bad v2 chunk magic"
    else if version ≠ streamVersion then refuse s!"unsupported profiler stream version {version}"
    else if number buffer 6 2 ≠ chunkHeaderSize then refuse "unsupported v2 chunk header size"
    else if ¬(chunkSession ≤ chunkType ∧ chunkType < chunkEnd + 1) then
      refuse s!"unknown v2 chunk type {chunkType}"
    else if number buffer 10 2 ≠ 0 ∨ number buffer 24 8 ≠ 0 then
      refuse "v2 chunk reserved fields are not zero"
    else if maxChunkPayload < payloadSize then refuse "v2 chunk payload exceeds safety limit"
    else if buffer.length < chunkHeaderSize + payloadSize then .ok none
    else
      let payload := (buffer.drop chunkHeaderSize).take payloadSize
      if crc32 payload ≠ number buffer 20 4 then refuse "v2 chunk payload CRC mismatch"
      else match d.takeChunk unicode chunkType (number buffer 16 4) payload with
        | .error e => .error e
        | .ok d => .ok (some (d, buffer.drop (chunkHeaderSize + payloadSize)))

/-- Decode the chunks at the front of the bytes; the answer tells whether there was one. -/
def decodeChunks (d : Decoder) (bytes : Bytes) : Except TraceError (Bool × Decoder) :=
  match scan (round unicode) d bytes with
  | .error e => .error e
  | .ok (d', buffer) => .ok (decide (d'.nextSequence ≠ d.nextSequence), { d' with buffer })

def feed (d : Decoder) (data : Bytes) : Except TraceError (Bool × Decoder) :=
  if d.finished then refuse "capture decoder is already finished"
  else if data = [] then .ok (false, d)
  else
    let d := { d with rawSize := d.rawSize + data.length }
    let maxBytes := d.maxBytes
    if maxBytes < d.rawSize then refuse s!"capture exceeds the {maxBytes}-byte safety limit"
    else match d.mode with
      | some .v1 => .ok (false, { d with v1Data := d.v1Data ++ data })
      | some .v2 => d.decodeChunks unicode (d.buffer ++ data)
      | none =>
        let buffer := d.buffer ++ data
        if buffer.length < 4 then .ok (false, { d with buffer })
        else if number buffer 0 4 = chunkMagic then
          { d with mode := some .v2 }.decodeChunks unicode buffer
        else if number buffer 0 4 = nameMagic ∨ number buffer 0 4 = wireMagic then
          .ok (false, { d with mode := some .v1, v1Data := d.v1Data ++ buffer, buffer := [] })
        else refuse "capture must begin with VPNM, VPRF, or v2 chunk"

def snapshot (d : Decoder) (allowIncomplete : Bool) : Except TraceError TraceCapture :=
  match d.mode, d.header, d.session with
  | some .v2, some header, some session =>
    if d.nextSequence < 2 then refuse "v2 dictionary is not complete"
    else if allowIncomplete = false ∧ d.complete = false then
      refuse "v2 session ended without an END chunk"
    else .ok ⟨header, d.names, d.events, d.dictionarySize, d.rawSize, some session, d.threads,
      d.modules, d.loss, d.complete⟩
  | _, _, _ => refuse "v2 session metadata is not complete"

def finish (d : Decoder) : Except TraceError TraceCapture :=
  if d.finished then refuse "capture decoder is already finished"
  else match d.mode with
    | some .v1 => decodeV1Capture unicode d.v1Data
    | none => refuse "capture is too short to contain a magic"
    | some .v2 =>
      if d.buffer ≠ [] then refuse "v2 stream ends with a truncated chunk"
      else if d.endSeen = false then refuse "v2 session ended without an END chunk"
      else { d with finished := true, complete := true }.snapshot false

end Decoder

/-- Feed all the bytes at once, then finish. -/
def decodeWithin (maxBytes maxEvents : ℕ) (data : Bytes) : Except TraceError TraceCapture :=
  match incrementalTraceDecoder maxBytes maxEvents with
  | .error e => .error e
  | .ok d =>
    match d.feed unicode data with
    | .error e => .error e
    | .ok (_, d) => d.finish unicode

def decodeCapture (data : Bytes) : Except TraceError TraceCapture :=
  decodeWithin unicode (max defaultMaxBytes data.length) maxDecodedEvents data

end VitaDebugger.TraceDecoder
