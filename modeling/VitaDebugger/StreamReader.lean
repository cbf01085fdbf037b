import Mathlib.Logic.Function.Iterate
import VitaDebugger.NameDictionary
import VitaDebugger.ScanLoop

/-! Version 2 of the profiler's trace stream: chunks with a header, a sequence number and a
checksum, and the reader that validates a whole stream before it is walked. -/

namespace VitaDebugger.StreamReader
open LittleEndian ProfilerEvent NameDictionary ScanLoop

abbrev chunkMagic : UInt32 := 0x32435056
abbrev streamVersion : UInt16 := 2
abbrev chunkHeaderSize : ℕ := 32
abbrev sessionPayloadSize : ℕ := 96
abbrev threadPayloadSize : ℕ := 32
abbrev modulePayloadSize : ℕ := 32
abbrev statsPayloadSize : ℕ := 32
abbrev timerSourceMax : ℕ := 40
abbrev timerUnitMax : ℕ := 16
abbrev maxChunkPayload : ℕ := 2 * 1024 * 1024
abbrev maxThreadMetadata : ℕ := 64
abbrev maxModuleMetadata : ℕ := 64

abbrev sessionProcessId : UInt32 := 1
abbrev sessionProcessIdentity : UInt32 := 2
abbrev sessionTimerSource : UInt32 := 4
abbrev sessionTimerUnit : UInt32 := 8
abbrev sessionFlagsAll : UInt32 := 15
abbrev threadIdentity : UInt32 := 1
abbrev threadFlagsAll : UInt32 := 1
abbrev moduleArm : UInt32 := 2
abbrev moduleThumb : UInt32 := 4
abbrev moduleFlagsAll : UInt32 := 7

inductive ChunkType where
  | session
  | dictionary
  | events
  | thread
  | module
  | stats
  | endStream
  deriving DecidableEq

def ChunkType.code : ChunkType → UInt16
  | .session => 1
  | .dictionary => 2
  | .events => 3
  | .thread => 4
  | .module => 5
  | .stats => 6
  | .endStream => 7

def ChunkType.ofCode (code : UInt16) : Option ChunkType :=
  [.session, .dictionary, .events, .thread, .module, .stats, .endStream].find? fun type =>
    type.code = code

def crcBit (crc : UInt32) : UInt32 := (crc >>> 1) ^^^ (0xedb88320 &&& (0 - (crc &&& 1)))

def crcByte (crc : UInt32) (byte : UInt8) : UInt32 := crcBit^[8] (crc ^^^ byte.toUInt32)

def vpStreamCrc32 (data : Bytes) : UInt32 := ~~~data.foldl crcByte 0xffffffff

/-- The keys after one more, in a table of fixed size. -/
def vpStreamAddMetadataKey (keys : List UInt64) (capacity : ℕ) (key : UInt64) :
    Except VpError (List UInt64) :=
  if key ∈ keys then .error .invalidArgument
  else if keys.length = capacity then .error .capacity
  else .ok (keys ++ [key])

structure ChunkView where
  type : ChunkType
  sequence : UInt32
  payload : Bytes

def vpStreamV2DecodeChunkLe (input : Bytes) : Except VpError ChunkView :=
  if input.length < chunkHeaderSize then .error .malformed
  else if readU32Le input 0 ≠ chunkMagic then .error .malformed
  else if readU16Le input 4 ≠ streamVersion ∨ readU16Le input 6 ≠ .ofNat chunkHeaderSize then
    .error .unsupported
  else match ChunkType.ofCode (readU16Le input 8) with
    | none => .error .malformed
    | some type =>
      let payloadSize := (readU32Le input 12).toNat
      if readU16Le input 10 ≠ 0 ∨ readU64Le input 24 ≠ 0 ∨ maxChunkPayload < payloadSize then
        .error .malformed
      else if input.length < chunkHeaderSize + payloadSize then .error .malformed
      else
        let payload := (input.drop chunkHeaderSize).take payloadSize
        if vpStreamCrc32 payload ≠ readU32Le input 20 then .error .malformed
        else .ok ⟨type, readU32Le input 16, payload⟩

/-- The session identifier of a valid SESSION payload. -/
def validateSession (payload : Bytes) : Except VpError UInt64 :=
  if payload.length ≠ sessionPayloadSize then .error .malformed
  else
    let sessionId := readU64Le payload 0
    let identity := readU64Le payload 8
    let processId := readU32Le payload 24
    let flags := readU32Le payload 28
    let sourceLength := (readU16Le payload 32).toNat
    let unitLength := (readU16Le payload 34).toNat
    if sessionId = 0 ∨ flags &&& ~~~sessionFlagsAll ≠ 0 ∨ timerSourceMax < sourceLength ∨
        timerUnitMax < unitLength ∨ readU32Le payload 36 ≠ 0 ∨
        (decide (flags &&& sessionTimerSource ≠ 0) ≠ decide (sourceLength ≠ 0)) ∨
        (decide (flags &&& sessionTimerUnit ≠ 0) ≠ decide (unitLength ≠ 0)) ∨
        (flags &&& sessionProcessId = 0 ∧ processId ≠ 0) ∨
        (flags &&& sessionProcessIdentity = 0 ∧ identity ≠ 0) then .error .malformed
    else if ((payload.drop (40 + sourceLength)).take (timerSourceMax - sourceLength)).any
      (· ≠ 0) then
      .error .malformed
    else if ((payload.drop (80 + unitLength)).take (timerUnitMax - unitLength)).any (· ≠ 0) then
      .error .malformed
    else .ok sessionId

def validatePayload (type : ChunkType) (payload : Bytes) : Except VpError Unit :=
  match type with
  | .dictionary =>
    match vpNameWireValidateLe payload with
    | .ok totalSize => if totalSize = payload.length then .ok () else .error .malformed
    | .error e => .error e
  | .events =>
    if payload.length ≠ 0 ∧ payload.length % wireEventSize = 0 then .ok () else .error .malformed
  | .thread =>
    if payload.length ≠ threadPayloadSize then .error .malformed
    else
      let identity := readU64Le payload 0
      let flags := readU32Le payload 20
      if readU32Le payload 8 = 0 ∨ flags &&& ~~~threadFlagsAll ≠ 0 ∨
          (decide (flags &&& threadIdentity ≠ 0) ≠ decide (identity ≠ 0)) ∨
          readU64Le payload 24 ≠ 0 then .error .malformed
      else .ok ()
  | .module =>
    if payload.length ≠ modulePayloadSize then .error .malformed
    else
      let start := readU32Le payload 8
      let stop := readU32Le payload 12
      let flags := readU32Le payload 20
      if readU32Le payload 0 = 0 ∨ stop ≤ start ∨ flags &&& ~~~moduleFlagsAll ≠ 0 ∨
          flags &&& (moduleArm ||| moduleThumb) = 0 ∨ readU64Le payload 24 ≠ 0 then
        .error .malformed
      else .ok ()
  | .stats | .endStream => if payload.length = statsPayloadSize then .ok () else .error .malformed
  | .session => .error .malformed

/-- The key of a metadata chunk: identifier and generation. -/
def metadataKey (identifier generation : UInt32) : UInt64 :=
  identifier.toUInt64 <<< 32 ||| generation.toUInt64

/-- The locals of the loop of `vp_stream_v2_cursor_init`. -/
structure Reader where
  offset : ℕ
  expectedSequence : UInt32
  sawEnd : Bool
  sawStats : Bool
  threadKeys : List UInt64
  moduleKeys : List UInt64
  previousEventsWritten : UInt64
  previousBytesWritten : UInt64
  sessionId : UInt64
  chunkCount : ℕ
  eventCount : ℕ

def Reader.start : Reader := ⟨0, 0, false, false, [], [], 0, 0, 0, 0, 0⟩

namespace Reader

/-- The place of a chunk in the stream decides what it may be. -/
def validateChunk (s : Reader) (chunk : ChunkView) : Except VpError Reader :=
  if s.expectedSequence = 0 then
    if chunk.type ≠ .session then .error .malformed
    else match validateSession chunk.payload with
      | .error e => .error e
      | .ok sessionId => .ok { s with sessionId }
  else if s.expectedSequence = 1 then
    if chunk.type ≠ .dictionary then .error .malformed
    else match validatePayload chunk.type chunk.payload with
      | .error e => .error e
      | .ok () => .ok s
  else if chunk.type = .session ∨ chunk.type = .dictionary then .error .malformed
  else match validatePayload chunk.type chunk.payload with
    | .error e => .error e
    | .ok () => .ok s

/-- The counters of a STATS or END chunk. -/
def countStats (s : Reader) (payload : Bytes) : Except VpError Reader :=
  let eventsWritten := readU64Le payload 16
  let bytesWritten := readU64Le payload 24
  if s.eventCount < eventsWritten.toNat ∨ (s.sawStats = true ∧
        (eventsWritten < s.previousEventsWritten ∨ bytesWritten < s.previousBytesWritten)) then
    .error .malformed
  else .ok { s with
      previousEventsWritten := eventsWritten
      previousBytesWritten := bytesWritten
      sawStats := true }

/-- What a valid chunk adds to the tables and counters. -/
def collect (s : Reader) (chunk : ChunkView) : Except VpError Reader :=
  match chunk.type with
  | .thread =>
    match vpStreamAddMetadataKey s.threadKeys maxThreadMetadata
        (metadataKey (readU32Le chunk.payload 8) (readU32Le chunk.payload 12)) with
    | .error _ => .error .malformed
    | .ok threadKeys => .ok { s with threadKeys }
  | .module =>
    match vpStreamAddMetadataKey s.moduleKeys maxModuleMetadata
        (metadataKey (readU32Le chunk.payload 0) (readU32Le chunk.payload 4)) with
    | .error _ => .error .malformed
    | .ok moduleKeys => .ok { s with moduleKeys }
  | .events => .ok { s with eventCount := s.eventCount + chunk.payload.length / wireEventSize }
  | .stats => s.countStats chunk.payload
  | .endStream =>
    match s.countStats chunk.payload with
    | .error e => .error e
    | .ok s =>
      if (readU64Le chunk.payload 16).toNat ≠ s.eventCount ∨ readU32Le chunk.payload 12 ≠ 0 ∨
          (readU64Le chunk.payload 24).toNat ≠
            s.offset + chunkHeaderSize + chunk.payload.length then .error .malformed
      else .ok { s with sawEnd := true }
  | .session | .dictionary => .ok s

def advance (s : Reader) (size : ℕ) : Reader := { s with
    offset := s.offset + size
    expectedSequence := s.expectedSequence + 1
    chunkCount := s.chunkCount + 1 }

def acceptChunk (s : Reader) (chunk : ChunkView) : Except VpError Reader :=
  if chunk.sequence ≠ s.expectedSequence ∨ s.sawEnd = true then .error .malformed
  else match s.validateChunk chunk with
    | .error e => .error e
    | .ok s =>
      match s.collect chunk with
      | .error e => .error e
      | .ok s => .ok (s.advance (chunkHeaderSize + chunk.payload.length))

/-- One turn of the loop over the input. -/
def round (s : Reader) (input : Bytes) : Except VpError (Option (Reader × Bytes)) :=
  if input = [] then .ok none
  else match vpStreamV2DecodeChunkLe input with
    | .error e => .error e
    | .ok chunk =>
      match s.acceptChunk chunk with
      | .error e => .error e
      | .ok s => .ok (some (s, input.drop (chunkHeaderSize + chunk.payload.length)))

end Reader

structure StreamInfo where
  sessionId : UInt64
  chunkCount : ℕ
  eventCount : ℕ
  totalSize : ℕ

def vpStreamV2CursorInit (input : Bytes) : Except VpError StreamInfo :=
  match scan Reader.round .start input with
  | .error e => .error e
  | .ok (s, _) =>
    if s.offset ≠ input.length ∨ s.expectedSequence < 3 ∨ s.sawEnd = false then .error .malformed
    else .ok ⟨s.sessionId, s.chunkCount, s.eventCount, input.length⟩

/-- A cursor over the bytes that `vp_stream_v2_cursor_init` accepted. -/
structure Cursor where
  data : Bytes
  offset : ℕ
  nextSequence : UInt32

/-- The next chunk, or nothing at the end of the stream. -/
def vpStreamV2CursorNext (cursor : Cursor) : Except VpError (Option (ChunkView × Cursor)) :=
  if cursor.offset = cursor.data.length then .ok none
  else match vpStreamV2DecodeChunkLe (cursor.data.drop cursor.offset) with
    | .error e => .error e
    | .ok chunk =>
      if chunk.sequence ≠ cursor.nextSequence then .error .malformed
      else .ok (some (chunk, { cursor with
          offset := cursor.offset + (chunkHeaderSize + chunk.payload.length)
          nextSequence := cursor.nextSequence + 1 }))

/-- The chunks that a cursor still has to walk. -/
def cursorChunks : ℕ → Cursor → Except VpError (List ChunkView)
  | 0, _ => .ok []
  | fuel + 1, cursor =>
    match vpStreamV2CursorNext cursor with
    | .error e => .error e
    | .ok none => .ok []
    | .ok (some (chunk, cursor)) => (cursorChunks fuel cursor).map (chunk :: ·)

/-- The first `count` events of an EVENTS payload. -/
def decodeEvents : ℕ → Bytes → Except VpError (List Event)
  | 0, _ => .ok []
  | count + 1, payload =>
    match vpDecodeEventLe payload with
    | .error e => .error e
    | .ok event => (decodeEvents count (payload.drop wireEventSize)).map (event :: ·)

def chunkEvents (chunk : ChunkView) : Except VpError (List Event) :=
  if chunk.type = .events then decodeEvents (chunk.payload.length / wireEventSize) chunk.payload
  else .ok []

def chunksEvents : List ChunkView → Except VpError (List Event)
  | [] => .ok []
  | chunk :: chunks =>
    match chunkEvents chunk with
    | .error e => .error e
    | .ok events => (chunksEvents chunks).map (events ++ ·)

/-- Validate a stream, walk it and decode its events. -/
def readStream (input : Bytes) : Except VpError (StreamInfo × List Event) :=
  match vpStreamV2CursorInit input with
  | .error e => .error e
  | .ok info =>
    match cursorChunks (input.length + 1) ⟨input, 0, 0⟩ with
    | .error e => .error e
    | .ok chunks => (chunksEvents chunks).map fun events => (info, events)

end VitaDebugger.StreamReader
