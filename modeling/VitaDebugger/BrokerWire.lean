import VitaDebugger.AsciiText
import VitaDebugger.Fallible
import VitaDebugger.LowerHex

/-! The records of the attach broker, `vitadebug_attach_broker.c`: the parsers of its three
requests and the writers of their results. Texts are C strings without their final zero byte. -/

namespace VitaDebugger.BrokerWire
open AsciiText Fallible LowerHex

/-- The negative results of the broker. -/
inductive BrokerError where
  | argument
  | state
  | protocol
  | frame
  | io
  | entropy
  | replay
  | peer
  | limit
  | shutdown
  deriving DecidableEq

abbrev vdAttachMaxFrameSize : ℕ := 4096
abbrev vdAttachTitleIdLength : ℕ := 9
abbrev capStatus : UInt32 := 1
abbrev capExactTitleDiscovery : UInt32 := 2
abbrev capIdentityTicket : UInt32 := 4
abbrev capTicketRelease : UInt32 := 8
abbrev readOnlyCapabilities : UInt32 := 15

def helloHeader : Bytes := ascii "VITADEBUG-ATTACH-HELLO-1"
def helloResultHeader : Bytes := ascii "VITADEBUG-ATTACH-HELLO-RESULT-1"
def discoverHeader : Bytes := ascii "VITADEBUG-ATTACH-DISCOVER-1"
def discoverResultHeader : Bytes := ascii "VITADEBUG-ATTACH-DISCOVER-RESULT-1"
def releaseHeader : Bytes := ascii "VITADEBUG-ATTACH-RELEASE-1"
def releaseResultHeader : Bytes := ascii "VITADEBUG-ATTACH-RELEASE-RESULT-1"
def modeObserve : Bytes := ascii "observe"

def helloKeys : List Bytes :=
  [ascii "request_id", ascii "client_nonce", ascii "mode", ascii "expected_kernel_abi",
    ascii "required_caps"]

def discoverKeys : List Bytes :=
  [ascii "request_id", ascii "server_nonce", ascii "service_generation", ascii "target_title_id",
    ascii "mode"]

def releaseKeys : List Bytes :=
  [ascii "request_id", ascii "server_nonce", ascii "service_generation", ascii "target_ticket"]

structure VdHelloRequest where
  requestId : Bytes
  clientNonce : Bytes
  expectedKernelAbi : UInt32
  requiredCaps : UInt32
  deriving DecidableEq

structure VdDiscoverRequest where
  requestId : Bytes
  serverNonce : Bytes
  serviceGeneration : UInt64
  titleId : Bytes
  deriving DecidableEq

structure VdReleaseRequest where
  requestId : Bytes
  serverNonce : Bytes
  serviceGeneration : UInt64
  ticket : Bytes
  deriving DecidableEq

/-- An identity snapshot. A title array without a zero byte counts as its ten bytes. -/
structure VdAttachTargetIdentity where
  titleId : Bytes
  pid : UInt32
  mainModid : UInt32
  mainFingerprint : UInt32
  targetGeneration : UInt64
  deriving DecidableEq

/-- The configuration; of its callbacks only whether there is an identity provider. -/
structure VdAttachBrokerConfig where
  discoverExact : Bool
  attachCaps : UInt32
  kernelAbi : UInt32
  kernelCaps : UInt32
  ticketLeaseMs : UInt32
  ioTimeoutMs : UInt32
  serviceReady : Bool
  deriving DecidableEq

section Parsers

def vdTokenIsValid (value : Bytes) (digits : ℕ) (allowZero : Bool) : Bool :=
  decide (value.length = digits) && value.all (fun c => decide (IsHex c)) &&
    (allowZero || value.any (· != 48))

def nibble (c : UInt8) : UInt64 :=
  if c ≤ 57 then c.toUInt64 - 48 else c.toUInt64 - 97 + 10

def vdParseHexU64 (value : Bytes) (digits : ℕ) (allowZero : Bool) : Except BrokerError UInt64 := do
  ensure (¬(digits > 16 ∨ vdTokenIsValid value digits allowZero = false)) .protocol
  pure (value.foldl (fun result c => result <<< 4 ||| nibble c) 0)

def vdTitleIsValid (titleId : Bytes) : Bool :=
  decide (titleId.length = vdAttachTitleIdLength) &&
    titleId.all fun c => decide (65 ≤ c ∧ c ≤ 90 ∨ 48 ≤ c ∧ c ≤ 57)

/-- `strchr` for the end of a line: the line and what stands behind it. -/
def cutLine : Bytes → Option (Bytes × Bytes)
  | [] => none
  | c :: rest =>
    if c = 10 then some ([], rest) else (cutLine rest).map fun found => (c :: found.1, found.2)

/-- The loop over the keys, to the end of the record. -/
def parseFields : List Bytes → Bytes → Except BrokerError (List Bytes)
  | [], cursor => do
    ensure (cursor = []) .protocol
    pure []
  | key :: keys, cursor =>
    match cutLine cursor with
    | none => .error .protocol
    | some (row, rest) => do
      ensure (¬(row.length ≤ key.length ∨ row.take key.length ≠ key ∨
        row[key.length]? ≠ some 61)) .protocol
      ensure (row.drop (key.length + 1) ≠ []) .protocol
      let values ← parseFields keys rest
      pure (row.drop (key.length + 1) :: values)

def vdParseRecord (request header : Bytes) (keys : List Bytes) :
    Except BrokerError (List Bytes) := do
  ensure (¬(request.length = 0 ∨ request.length > vdAttachMaxFrameSize ∨ keys.length > 11 ∨
    request.getLast? ≠ some 10)) .protocol
  ensure (request.all (fun value => decide ¬(value ≠ 10 ∧ (value < 0x20 ∨ value > 0x7e))) = true)
    .protocol
  match cutLine request with
  | none => .error .protocol
  | some (line, cursor) =>
    ensure (line = header) .protocol
    parseFields keys cursor

def vdParseHello (request : Bytes) : Except BrokerError VdHelloRequest := do
  let values ← vdParseRecord request helloHeader helloKeys
  ensure (vdTokenIsValid (values.getD 0 []) 32 false = true) .protocol
  ensure (vdTokenIsValid (values.getD 1 []) 64 false = true) .protocol
  ensure (values.getD 2 [] = modeObserve) .protocol
  let expectedKernelAbi ← vdParseHexU64 (values.getD 3 []) 8 false
  let requiredCaps ← vdParseHexU64 (values.getD 4 []) 8 true
  ensure (requiredCaps.toUInt32 &&& ~~~readOnlyCapabilities = 0) .protocol
  pure ⟨values.getD 0 [], values.getD 1 [], expectedKernelAbi.toUInt32, requiredCaps.toUInt32⟩

def vdParseDiscover (request : Bytes) : Except BrokerError VdDiscoverRequest := do
  let values ← vdParseRecord request discoverHeader discoverKeys
  ensure (vdTokenIsValid (values.getD 0 []) 32 false = true) .protocol
  ensure (vdTokenIsValid (values.getD 1 []) 64 false = true) .protocol
  let serviceGeneration ← vdParseHexU64 (values.getD 2 []) 16 false
  ensure (vdTitleIsValid (values.getD 3 []) = true) .protocol
  ensure (values.getD 4 [] = modeObserve) .protocol
  pure ⟨values.getD 0 [], values.getD 1 [], serviceGeneration, values.getD 3 []⟩

def vdParseRelease (request : Bytes) : Except BrokerError VdReleaseRequest := do
  let values ← vdParseRecord request releaseHeader releaseKeys
  ensure (vdTokenIsValid (values.getD 0 []) 32 false = true) .protocol
  ensure (vdTokenIsValid (values.getD 1 []) 64 false = true) .protocol
  let serviceGeneration ← vdParseHexU64 (values.getD 2 []) 16 false
  ensure (vdTokenIsValid (values.getD 3 []) 64 false = true) .protocol
  pure ⟨values.getD 0 [], values.getD 1 [], serviceGeneration, values.getD 3 []⟩

end Parsers

section Writers

/-- Text behind what the buffer holds already, with room for the final zero byte. -/
def vdWriterAppend (capacity : ℕ) (written text : Bytes) : Except BrokerError Bytes := do
  ensure (¬written.length ≥ capacity) .frame
  ensure (¬text.length ≥ capacity - written.length) .frame
  ensure (¬(written ++ text).length > vdAttachMaxFrameSize) .frame
  pure (written ++ text)

def vdIsPercentUnreserved (value : UInt8) : Bool :=
  decide (65 ≤ value ∧ value ≤ 90 ∨ 97 ≤ value ∧ value ≤ 122 ∨ 48 ≤ value ∧ value ≤ 57 ∨
    value = 45 ∨ value = 46 ∨ value = 95 ∨ value = 126)

def upperHexDigits : Bytes := ascii "0123456789ABCDEF"

/-- `hex[nibble]` -/
def upperHex (nibble : UInt8) : UInt8 := upperHexDigits.getD nibble.toNat 0

def percentEncodeFrom (capacity : ℕ) (output : Bytes) : Bytes → Except BrokerError Bytes
  | [] => .ok output
  | value :: rest =>
    if value < 0x20 ∨ value > 0x7e then .error .protocol
    else if vdIsPercentUnreserved value then
      if output.length + 1 ≥ capacity then .error .frame
      else percentEncodeFrom capacity (output ++ [value]) rest
    else if output.length + 3 ≥ capacity then .error .frame
    else percentEncodeFrom capacity
      (output ++ [37, upperHex (value >>> 4), upperHex (value &&& 15)]) rest

def vdPercentEncodeMessage (message : Bytes) (capacity : ℕ) : Except BrokerError Bytes :=
  if capacity = 0 then .error .argument
  else if message = [] then if capacity < 4 then .error .frame else .ok (ascii "%00")
  else percentEncodeFrom capacity [] message

/-- One line of a record. -/
def fieldText (key : String) (value : Bytes) : Bytes := ascii key ++ [61] ++ value ++ [10]

variable (config : VdAttachBrokerConfig) (serviceGeneration : UInt64) (serverNonce : Bytes)

def vdWriteHelloResult (request : VdHelloRequest) (responseCapacity : ℕ) :
    Except BrokerError Bytes := do
  let plain := if config.serviceReady then [] else ascii "service unavailable"
  let message ← vdPercentEncodeMessage plain 96
  vdWriterAppend responseCapacity [] (helloResultHeader ++ [10] ++
    fieldText "request_id" request.requestId ++
    fieldText "client_nonce" request.clientNonce ++
    fieldText "server_nonce" serverNonce ++
    fieldText "service_generation" (hexText 16 serviceGeneration.toNat) ++
    fieldText "state" (if config.serviceReady then ascii "ready" else ascii "unavailable") ++
    fieldText "attach_caps" (hexText 8 config.attachCaps.toNat) ++
    fieldText "kernel_abi" (hexText 8 config.kernelAbi.toNat) ++
    fieldText "kernel_caps" (hexText 8 config.kernelCaps.toNat) ++
    fieldText "ticket_lease_ms" (decimal config.ticketLeaseMs.toNat) ++
    fieldText "control_policy" (ascii "disabled") ++
    fieldText "message" message)

def zeroIdentity : VdAttachTargetIdentity := ⟨[], 0, 0, 0, 0⟩

def vdWriteDiscoverResult (request : VdDiscoverRequest) (state : Bytes)
    (identity : Option VdAttachTargetIdentity) (ticket : Option Bytes)
    (plainMessage : Bytes) (responseCapacity : ℕ) : Except BrokerError Bytes := do
  let identity := identity.getD zeroIdentity
  let ticket := ticket.getD (List.replicate 64 48)
  let message ← vdPercentEncodeMessage plainMessage 128
  vdWriterAppend responseCapacity [] (discoverResultHeader ++ [10] ++
    fieldText "request_id" request.requestId ++
    fieldText "server_nonce" serverNonce ++
    fieldText "service_generation" (hexText 16 serviceGeneration.toNat) ++
    fieldText "state" state ++
    fieldText "target_title_id" request.titleId ++
    fieldText "pid" (hexText 8 identity.pid.toNat) ++
    fieldText "main_modid" (hexText 8 identity.mainModid.toNat) ++
    fieldText "main_fingerprint" (hexText 8 identity.mainFingerprint.toNat) ++
    fieldText "target_generation" (hexText 16 identity.targetGeneration.toNat) ++
    fieldText "target_ticket" ticket ++
    fieldText "message" message)

def vdWriteReleaseResult (request : VdReleaseRequest) (state plainMessage : Bytes)
    (responseCapacity : ℕ) : Except BrokerError Bytes := do
  let message ← vdPercentEncodeMessage plainMessage 128
  vdWriterAppend responseCapacity [] (releaseResultHeader ++ [10] ++
    fieldText "request_id" request.requestId ++
    fieldText "server_nonce" serverNonce ++
    fieldText "service_generation" (hexText 16 serviceGeneration.toNat) ++
    fieldText "target_ticket" request.ticket ++
    fieldText "state" state ++
    fieldText "message" message)

end Writers

section Validation

/-- The configurations that `vd_attach_broker_init` takes. -/
def configIsValid (config : VdAttachBrokerConfig) : Bool :=
  let discoveryCaps := capExactTitleDiscovery ||| capIdentityTicket ||| capTicketRelease
  decide (config.attachCaps &&& ~~~readOnlyCapabilities = 0 ∧
    250 ≤ config.ticketLeaseMs ∧ config.ticketLeaseMs ≤ 60000 ∧
    100 ≤ config.ioTimeoutMs ∧ config.ioTimeoutMs ≤ 30000 ∧
    (config.attachCaps &&& discoveryCaps = 0 ∨
      config.attachCaps &&& discoveryCaps = discoveryCaps) ∧
    (config.serviceReady = true → config.attachCaps &&& capStatus ≠ 0 ∧
      (config.attachCaps &&& discoveryCaps ≠ 0 → config.discoverExact = true)))

def vdIdentityIsValid (identity : VdAttachTargetIdentity) (expectedTitle : Bytes) : Bool :=
  vdTitleIsValid identity.titleId && identity.titleId == expectedTitle &&
    decide (0 < identity.pid ∧ identity.pid ≤ 0x7fffffff ∧ 0 < identity.mainModid ∧
      identity.mainModid ≤ 0x7fffffff ∧ identity.mainFingerprint ≠ 0 ∧
      identity.targetGeneration ≠ 0)

def vdIdentityMatches (left right : VdAttachTargetIdentity) : Bool :=
  left.titleId == right.titleId && left.pid == right.pid && left.mainModid == right.mainModid &&
    left.mainFingerprint == right.mainFingerprint && left.targetGeneration == right.targetGeneration

end Validation

end VitaDebugger.BrokerWire
